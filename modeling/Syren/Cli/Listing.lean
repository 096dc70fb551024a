import Syren.Cli.FilterOrder
import Syren.Folding.Distinct
import Syren.Gen.Lookup
import Syren.Output.Words

/-! The table that `--list-syscalls` prints, and that what it prints can be given to `-e`. -/
namespace Syren
open Text Output Gen Layout

/-- Left-aligned in so many columns. -/
def padRight (width : ℕ) (text : List Char) : List Char :=
  text ++ List.replicate (width - text.length) ' '

/-- The lines of `list_syscalls`. -/
def listSyscalls (table : List SyscallInfo) : List (List Char) :=
  (padLeft 4 "nr".toList ++ "  ".toList ++ padRight 24 "name".toList ++ " category".toList) ::
    table.map fun s => padLeft 4 (dec s.number.toNat) ++ "  ".toList ++
      padRight 24 s.name.toList ++ ' ' :: s.category.asStr.toList

/-- What a line of the list says. -/
structure Listed where
  number : ℕ
  name : List Char
  category : List Char

def readListed (line : List Char) : Option Listed :=
  match splitWhitespace line with
  | [number, name, category] => (readCount number).map fun n => ⟨n, name, category⟩
  | _ => none

/-- What the line of a row is to say. -/
def listed (s : SyscallInfo) : Listed := ⟨s.number.toNat, s.name.toList, s.category.asStr.toList⟩

section Table

/-- A number for a name, which no two syscalls share. -/
def nameCode (name : String) : ℕ :=
  (name.toByteArray.data.toList.foldl (fun n b => n * 256 + b.toNat) 0) % 9358

theorem names_nodup : (SYSCALLS.map (·.name)).Nodup := by
  have hcodes : Folding.distinctBits 0 ((ENTRIES.map Prod.snd).map nameCode) = true := by
    decide +kernel
  have hnames : SYSCALLS.map (·.name) = ENTRIES.map Prod.snd := by
    rw [SYSCALLS, List.map_map]
    exact congrArg (ENTRIES.map ·) (funext fun e => rfl)
  rw [hnames]
  exact Folding.nodup_of_codes nameCode hcodes

theorem syscallByName_self {info : SyscallInfo} (h : info ∈ SYSCALLS) :
    syscallByName SYSCALLS info.name.toList = some info := by
  have hnodup := names_nodup
  unfold syscallByName
  generalize SYSCALLS = table at h hnodup
  induction table with
  | nil => cases h
  | cons row table ih =>
    rw [List.map_cons, List.nodup_cons] at hnodup
    rcases List.mem_cons.mp h with rfl | h
    · exact List.find?_cons_of_pos (by simp)
    · have hne : row.name ≠ info.name := fun he => hnodup.1 (he ▸ List.mem_map_of_mem h)
      rw [List.find?_cons_of_neg (by simpa using hne)]
      exact ih h hnodup.2

end Table

section Reading

theorem oneWord_category (c : Category) : OneWord c.asStr.toList := by
  cases c <;> exact ⟨by decide, by simp +decide⟩

/-- A line of the list is read as it was printed. -/
theorem readListed_line {s : SyscallInfo} (h : OneWord s.name.toList) :
    readListed (padLeft 4 (dec s.number.toNat) ++ "  ".toList ++ padRight 24 s.name.toList ++
      ' ' :: s.category.asStr.toList) = some (listed s) := by
  have hspaces : "  ".toList = [' ', ' '] := by decide
  have hwhite : ∀ c ∈ List.replicate (24 - s.name.toList.length) ' ', isWhite c := by
    intro c hc
    rw [List.eq_of_mem_replicate hc]
    decide
  have hname : splitWhitespace (' ' :: padRight 24 s.name.toList) = [s.name.toList] := by
    rw [padRight, ← List.cons_append, splitWhitespace_trail _ hwhite]
    exact (splitWhitespace_gap (s := [' ']) (by decide) s.name.toList).trans h.split
  have hsplit : splitWhitespace (padLeft 4 (dec s.number.toNat) ++ "  ".toList ++
      padRight 24 s.name.toList ++ ' ' :: s.category.asStr.toList) =
        [dec s.number.toNat, s.name.toList, s.category.asStr.toList] := by
    rw [splitWhitespace_white (by decide), hspaces, List.append_assoc, List.cons_append,
      splitWhitespace_cell (oneWord_dec _), List.singleton_append, hname,
      (oneWord_category s.category).split]
    rfl
  rw [readListed, hsplit]
  simp [readCount_dec, listed]

theorem readListed_list : (listSyscalls SYSCALLS).tail.mapM readListed =
    some (SYSCALLS.map listed) := by
  have hall := oneWord_SYSCALLS
  unfold listSyscalls
  rw [List.tail_cons]
  generalize SYSCALLS = table at hall
  induction table with
  | nil => rfl
  | cons s table ih =>
    have hfirst := readListed_line (hall s List.mem_cons_self)
    rw [List.map_cons, List.mapM_cons, hfirst, ih fun t ht => hall t (List.mem_cons_of_mem s ht)]
    rfl

end Reading

namespace Filter

variable {token : List Char}

theorem trim_oneWord (h : OneWord token) : trim token = token := by
  have hdrop (t : List Char) (ht : ∀ c ∈ t, isWhite c = false) : t.dropWhile isWhite = t := by
    cases t with
    | nil => rfl
    | cons c t => exact List.dropWhile_cons_of_neg (by simp [ht c List.mem_cons_self])
  rw [trim, hdrop token h.2, hdrop token.reverse fun c hc => h.2 c (List.mem_reverse.mp hc),
    List.reverse_reverse]

/-- An expression of one token. -/
theorem tokensOf_token (h : OneWord token) (hcomma : ',' ∉ token) (hequals : '=' ∉ token) :
    tokensOf token = [token] := by
  have hset : setOf token = .ok token := by
    rw [setOf, splitOnce_eq_none.mpr hequals]
  have hsplit : token.splitOn ',' = [token] := List.splitOn_eq_singleton hcomma
  rw [tokensOf, hset]
  show ((token.splitOn ',').map trim).filter _ = _
  rw [hsplit, List.map_singleton, trim_oneWord h]
  simp [h.1]

/-- An expression of one known token gives the numbers that the token is taken for. -/
theorem fromExprs_token {table : List SyscallInfo} (h : OneWord token) (hcomma : ',' ∉ token)
    (hequals : '=' ∉ token) (hall : ¬ IsAll token) (hknown : Known table token) :
    ∃ f, fromExprs table [token] = .ok f ∧
      ∀ nr, f.allows nr = true ↔ ∃ n, Reads table token n ∧ n.toNat = nr.toNat := by
  have htokens := tokensOf_token h hcomma hequals
  have hset : setOf token = .ok token := by
    rw [setOf, splitOnce_eq_none.mpr hequals]
  have hmem {t : List Char} (ht : t ∈ tokensOf token) : t = token := by
    rw [htokens] at ht
    exact List.mem_singleton.mp ht
  have hstop : specStop table token = none := by
    refine specStop_eq_none.mpr ⟨?_, fun t ht => hmem ht ▸ hall⟩
    rintro (⟨message, hbad⟩ | ⟨t, ht, hunknown⟩)
    · cases hset.symm.trans hbad
    · exact hunknown (hmem ht ▸ hknown)
  have hfind : [token].findSome? (specStop table) = none := by
    rw [List.findSome?_cons, hstop]
    rfl
  refine ⟨_, by rw [fromExprs_eq (by simp), hfind]; rfl, fun nr => ?_⟩
  rw [allows_numbers]
  simp only [mem_collected, List.mem_singleton, exists_eq_left, htokens]

/-- The category of the list, as a token. -/
theorem reads_category (c : Category) (n : UInt32) :
    Reads SYSCALLS ('%' :: c.asStr.toList) n ↔ ∃ s ∈ SYSCALLS, s.category = c ∧ s.number = n := by
  have hparse : Category.parse (bare ('%' :: c.asStr.toList)) = some c := by
    cases c <;> decide
  unfold Reads
  rw [hparse]
  constructor
  · rintro (⟨category, hsame, hrow⟩ | ⟨hnone, -⟩)
    · cases hsame
      exact hrow
    · cases hnone
  · exact fun hrow => .inl ⟨c, rfl, hrow⟩

theorem reads_name {info : SyscallInfo} (hinfo : info ∈ SYSCALLS)
    (hbare : bare info.name.toList = info.name.toList)
    (hplain : Category.parse info.name.toList = none) (n : UInt32) :
    Reads SYSCALLS info.name.toList n ↔ info.number = n := by
  simp [Reads, hbare, hplain, syscallByName_self hinfo]

/-- What is not in the names of the table: a percent sign, a comma and an equals sign. -/
theorem name_notMem {info : SyscallInfo} (hinfo : info ∈ SYSCALLS) :
    '%' ∉ info.name.toList ∧ ',' ∉ info.name.toList ∧ '=' ∉ info.name.toList := by
  have hlacks := names_SYSCALLS info hinfo
  exact ⟨hlacks.notMem (b := 37) (by decide) (by decide),
    hlacks.notMem (b := 44) (by decide) (by decide),
    hlacks.notMem (b := 61) (by decide) (by decide)⟩

theorem bare_name {info : SyscallInfo} (hinfo : info ∈ SYSCALLS) :
    bare info.name.toList = info.name.toList := by
  obtain ⟨hpercent, -, -⟩ := name_notMem hinfo
  unfold bare
  cases hname : info.name.toList with
  | nil => rfl
  | cons c rest =>
    have hc : c ≠ '%' := fun he => hpercent (hname ▸ he ▸ List.mem_cons_self)
    simp [stripStart, hc]

theorem not_isAll_name {info : SyscallInfo} (hinfo : info ∈ SYSCALLS) :
    ¬ IsAll info.name.toList := by
  have hshort : ∀ e ∈ ENTRIES, e.2.toByteArray.data.toList.length = 3 →
      e.2 ∈ ["brk", "dup", "tee", "bpf"] := by decide +kernel
  intro hall
  have hlower : info.name.toList.map Char.toLower = "all".toList.map Char.toLower :=
    of_decide_eq_true hall
  have hlen : info.name.toList.length = 3 := by
    have hsame := congrArg List.length hlower
    rwa [List.length_map] at hsame
  have hclean := (visible_SYSCALLS info hinfo).clean
  have hbytes : info.name.toByteArray.data.toList.length = 3 := by
    rw [bytes_toList, List.length_flatMap, ← hlen]
    generalize info.name.toList = text at hclean
    induction text with
    | nil => rfl
    | cons c text ih =>
      rw [clean_cons] at hclean
      have hone : (String.utf8EncodeChar c).length = 1 := by
        rw [String.length_utf8EncodeChar, Char.utf8Size_eq_one_iff]
        have htilde : c.val ≤ 126 := hclean.1.2
        exact UInt32.le_trans htilde (by decide)
      rw [List.map_cons, List.sum_cons, hone, ih hclean.2, List.length_cons, Nat.add_comm]
  obtain ⟨e, he, rfl⟩ := List.mem_map.mp hinfo
  have hnames : ∀ name ∈ ["brk", "dup", "tee", "bpf"], ¬ IsAll name.toList := by decide
  exact hnames e.2 (hshort e he hbytes) hall

end Filter

open Syren.Filter

/-- What the list prints can be given to `-e`. Each printed category, with its percent sign, is
accepted and selects exactly the numbers that are printed with it; and so is each printed name,
which selects the number that is printed with it alone unless it is the name of a category too. -/
theorem list_accepted : ∃ rows, (listSyscalls SYSCALLS).tail.mapM readListed = some rows ∧
    rows.length = SYSCALLS.length ∧ ∀ row ∈ rows,
      (∃ f, fromExprs SYSCALLS ['%' :: row.category] = .ok f ∧ ∀ nr : UInt64,
        f.allows nr = true ↔ ∃ r ∈ rows, r.category = row.category ∧ r.number = nr.toNat) ∧
      (Category.parse row.name = none → ∃ f, fromExprs SYSCALLS [row.name] = .ok f ∧
        ∀ nr : UInt64, f.allows nr = true ↔ row.number = nr.toNat) := by
  refine ⟨_, readListed_list, List.length_map _, fun row hrow => ?_⟩
  obtain ⟨s, hs, rfl⟩ := List.mem_map.mp hrow
  have hcategory := oneWord_category s.category
  constructor
  · have hknown : Known SYSCALLS ('%' :: s.category.asStr.toList) := by
      refine .inr (.inl ?_)
      cases s.category <;> decide
    have hword : OneWord ('%' :: s.category.asStr.toList) := by
      refine ⟨List.cons_ne_nil _ _, fun c hc => ?_⟩
      rcases List.mem_cons.mp hc with rfl | hc
      · decide
      · exact hcategory.2 c hc
    have hsigns : ',' ∉ '%' :: s.category.asStr.toList ∧ '=' ∉ '%' :: s.category.asStr.toList := by
      cases s.category <;> decide
    have hall : ¬ IsAll ('%' :: s.category.asStr.toList) := by
      cases s.category <;> decide
    obtain ⟨f, hf, hallows⟩ := fromExprs_token hword hsigns.1 hsigns.2 hall hknown
    refine ⟨f, hf, fun nr => ?_⟩
    have hinj (c d : Category) (h : c.asStr.toList = d.asStr.toList) : c = d := by
      revert h
      cases c <;> cases d <;> decide
    rw [hallows]
    simp only [listed, reads_category, List.mem_map, exists_exists_and_eq_and]
    constructor
    · rintro ⟨n, ⟨r, hr, hsame, rfl⟩, hn⟩
      exact ⟨r, hr, congrArg (·.asStr.toList) hsame, hn⟩
    · rintro ⟨r, hr, hsame, hn⟩
      exact ⟨r.number, ⟨r, hr, hinj _ _ hsame, rfl⟩, hn⟩
  · intro hplain
    obtain ⟨-, hcomma, hequals⟩ := name_notMem hs
    have hknown : Known SYSCALLS s.name.toList :=
      .inr (.inr (by rw [syscallByName_self hs]; rfl))
    obtain ⟨f, hf, hallows⟩ := fromExprs_token (oneWord_SYSCALLS s hs) hcomma hequals
      (not_isAll_name hs) hknown
    refine ⟨f, hf, fun nr => ?_⟩
    rw [hallows]
    simp [reads_name hs (bare_name hs) hplain, listed]

end Syren
