import Syren.Cli.FilterMeaning

/-! Whether the order of `-e` expressions, and of the tokens inside them, makes a difference. -/
namespace Syren.Filter
open Text

/-- What stands before the tokens of an expression, and the tokens with the commas. -/
def parts (spec : List Char) : List Char × List Char :=
  match splitOnce '=' spec with
  | some (qualifier, rest) => (qualifier ++ ['='], rest)
  | none => ([], spec)

/-- The expressions differ in the order of their tokens. -/
def SameTokens (spec spec' : List Char) : Prop :=
  (parts spec').1 = (parts spec).1 ∧
    ((parts spec).2.splitOn ',').Perm ((parts spec').2.splitOn ',')

/-- The lists differ in the order of the expressions and of the tokens inside them. -/
def Rearranged (exprs exprs' : List (List Char)) : Prop :=
  ∃ mid, exprs.Perm mid ∧ List.Forall₂ SameTokens mid exprs'

def Accepted (table : List SyscallInfo) (exprs : List (List Char)) : Prop :=
  ∃ f, fromExprs table exprs = .ok f

/-- The list is rejected exactly where something in it is bad, and no rearrangement changes whether
it is accepted nor which numbers are allowed. -/
structure OrderFree (table : List SyscallInfo) (exprs : List (List Char)) : Prop where
  rejected : (∃ message, fromExprs table exprs = .error message) ↔ Bad table exprs
  accepted : ∀ exprs', Rearranged exprs exprs' → (Accepted table exprs' ↔ Accepted table exprs)
  allowed : ∀ exprs', Rearranged exprs exprs' → ∀ f f', fromExprs table exprs = .ok f →
    fromExprs table exprs' = .ok f' → ∀ nr, f'.allows nr = f.allows nr

variable {table : List SyscallInfo} {exprs exprs' : List (List Char)} {spec spec' : List Char}

theorem splitOnce_eq_none {c : Char} {s : List Char} : splitOnce c s = none ↔ c ∉ s := by
  induction s with
  | nil => simp [splitOnce]
  | cons d s ih =>
    rw [splitOnce]
    split_ifs with hd
    · simp [hd]
    · simp [ih, Ne.symm hd]

theorem splitOnce_eq_some {c : Char} {s q rest : List Char} (h : splitOnce c s = some (q, rest)) :
    s = q ++ c :: rest ∧ c ∉ q := by
  induction s generalizing q with
  | nil => cases h
  | cons d s ih =>
    rw [splitOnce] at h
    split_ifs at h with hd
    · cases h
      exact ⟨by rw [hd]; rfl, List.not_mem_nil⟩
    · obtain ⟨⟨q', rest'⟩, hs, heq⟩ := Option.map_eq_some_iff.mp h
      cases heq
      obtain ⟨rfl, hq⟩ := ih hs
      exact ⟨rfl, by simp [Ne.symm hd, hq]⟩

theorem mem_intercalate {c d : Char} {ls : List (List Char)} (h : d ∈ [c].intercalate ls) :
    d = c ∨ ∃ l ∈ ls, d ∈ l := by
  induction ls with
  | nil => cases h
  | cons l ls ih =>
    cases ls with
    | nil =>
      rw [List.intercalate_singleton] at h
      exact .inr ⟨l, List.mem_singleton_self l, h⟩
    | cons m ls =>
      rw [List.intercalate_cons_cons, List.mem_append, List.mem_append, List.mem_singleton] at h
      obtain (h | rfl) | h := h
      · exact .inr ⟨l, List.mem_cons_self, h⟩
      · exact .inl rfl
      · obtain rfl | ⟨l', hl', hd⟩ := ih h
        · exact .inl rfl
        · exact .inr ⟨l', List.mem_cons_of_mem _ hl', hd⟩

theorem subset_intercalate {c : Char} {ls : List (List Char)} {l : List Char} (h : l ∈ ls) :
    l ⊆ [c].intercalate ls := by
  induction ls with
  | nil => cases h
  | cons m ls ih =>
    cases ls with
    | nil =>
      cases List.mem_singleton.mp h
      rw [List.intercalate_singleton]
      exact List.Subset.refl _
    | cons m' ls =>
      rw [List.intercalate_cons_cons]
      rcases List.mem_cons.mp h with rfl | h
      · exact fun d hd => List.mem_append_left _ (List.mem_append_left _ hd)
      · exact fun d hd => List.mem_append_right _ (ih h hd)

theorem not_mem_piece {c : Char} {s l : List Char} (h : l ∈ s.splitOn c) : c ∉ l := by
  induction s generalizing l with
  | nil =>
    rw [List.splitOn_nil] at h
    rw [List.mem_singleton.mp h]
    exact List.not_mem_nil
  | cons d s ih =>
    rw [List.splitOn_cons_eq_if_modifyHead] at h
    split_ifs at h with hd
    · rcases List.mem_cons.mp h with rfl | h
      · exact List.not_mem_nil
      · exact ih h
    · obtain ⟨m, ms, hsplit⟩ := List.exists_cons_of_ne_nil (List.splitOn_ne_nil c s)
      rw [hsplit, List.modifyHead_cons] at h
      rcases List.mem_cons.mp h with rfl | h
      · have hm := ih (hsplit ▸ List.mem_cons_self)
        simp only [beq_iff_eq] at hd
        simp [hm, Ne.symm hd]
      · exact ih (hsplit ▸ List.mem_cons_of_mem _ h)

/-- Any order of the tokens of an expression is that of another expression. -/
theorem exists_sameTokens {pieces : List (List Char)}
    (h : ((parts spec).2.splitOn ',').Perm pieces) :
    ∃ spec', SameTokens spec spec' ∧ (parts spec').2.splitOn ',' = pieces := by
  have hne : pieces ≠ [] := fun he => List.splitOn_ne_nil _ _ (he ▸ h).eq_nil
  have hsplit : ([','].intercalate pieces).splitOn ',' = pieces :=
    List.splitOn_intercalate ',' (fun l hl => not_mem_piece (h.mem_iff.mpr hl)) hne
  unfold SameTokens parts at *
  cases hspec : splitOnce '=' spec with
  | some p =>
    obtain ⟨q, rest⟩ := p
    rw [hspec] at h
    refine ⟨q ++ '=' :: [','].intercalate pieces, ?_⟩
    rw [splitOnce_append (splitOnce_eq_some hspec).2]
    exact ⟨⟨rfl, by rwa [hsplit]⟩, hsplit⟩
  | none =>
    rw [hspec] at h
    have hno : '=' ∉ [','].intercalate pieces := by
      intro hin
      obtain heq | ⟨l, hl, hin⟩ := mem_intercalate hin
      · exact absurd heq (by decide)
      · have hsub := subset_intercalate (c := ',') (h.mem_iff.mpr hl) hin
        rw [List.intercalate_splitOn] at hsub
        exact splitOnce_eq_none.mp hspec hsub
    refine ⟨[','].intercalate pieces, ?_⟩
    rw [splitOnce_eq_none.mpr hno]
    exact ⟨⟨rfl, by rwa [hsplit]⟩, hsplit⟩

/-- Neither the qualifier nor what the tokens are depends on their order. -/
theorem SameTokens.setOf (h : SameTokens spec spec') :
    (∃ m m', Filter.setOf spec = .error m ∧ Filter.setOf spec' = .error m') ∨
    (Filter.setOf spec = .ok (parts spec).2 ∧ Filter.setOf spec' = .ok (parts spec').2) := by
  obtain ⟨hhead, -⟩ := h
  unfold Filter.setOf parts at *
  cases hspec : splitOnce '=' spec with
  | none =>
    cases hspec' : splitOnce '=' spec' with
    | none => exact .inr ⟨rfl, rfl⟩
    | some p' =>
      rw [hspec, hspec'] at hhead
      exact absurd hhead (by simp)
  | some p =>
    cases hspec' : splitOnce '=' spec' with
    | none =>
      rw [hspec, hspec'] at hhead
      exact absurd hhead.symm (by simp)
    | some p' =>
      rw [hspec, hspec'] at hhead
      have hq : p'.1 = p.1 := List.append_cancel_right hhead
      dsimp only
      rw [hq]
      split_ifs
      · exact .inr ⟨rfl, rfl⟩
      · exact .inl ⟨_, _, rfl, rfl⟩

theorem SameTokens.perm (h : SameTokens spec spec') : (tokensOf spec).Perm (tokensOf spec') := by
  unfold tokensOf
  obtain ⟨m, m', hs, hs'⟩ | ⟨hs, hs'⟩ := h.setOf
  · rw [hs, hs']
  · rw [hs, hs']
    exact (h.2.map trim).filter _

theorem SameTokens.badSpec (h : SameTokens spec spec') :
    BadSpec table spec' ↔ BadSpec table spec := by
  have herror : (∃ m, Filter.setOf spec' = .error m) ↔ ∃ m, Filter.setOf spec = .error m := by
    obtain ⟨m, m', hs, hs'⟩ | ⟨hs, hs'⟩ := h.setOf
    · exact ⟨fun _ => ⟨m, hs⟩, fun _ => ⟨m', hs'⟩⟩
    · rw [hs, hs']
      simp
  unfold BadSpec
  simp only [herror, h.perm.mem_iff]

/-- What some expression of the list has, some expression of every rearrangement has. -/
theorem Rearranged.exists_iff {P : List Char → Prop} (h : Rearranged exprs exprs')
    (hp : ∀ {spec spec'}, SameTokens spec spec' → (P spec' ↔ P spec)) :
    (∃ spec ∈ exprs', P spec) ↔ ∃ spec ∈ exprs, P spec := by
  obtain ⟨mid, hperm, hsame⟩ := h
  simp only [hperm.mem_iff]
  clear hperm
  induction hsame with
  | nil => simp
  | cons hst _ ih => simp [hp hst, ih]

theorem Rearranged.hasAll (h : Rearranged exprs exprs') : HasAll exprs' ↔ HasAll exprs :=
  h.exists_iff fun hs => by simp only [hs.perm.mem_iff]

theorem Rearranged.bad (h : Rearranged exprs exprs') : Bad table exprs' ↔ Bad table exprs :=
  h.exists_iff SameTokens.badSpec

theorem Rearranged.collected (h : Rearranged exprs exprs') :
    exprs'.foldl (collect table) ∅ = exprs.foldl (collect table) ∅ := by
  ext n
  rw [mem_collected, mem_collected]
  exact h.exists_iff fun hs => by simp only [hs.perm.mem_iff]

theorem Rearranged.eq_nil (h : Rearranged exprs exprs') : exprs' = [] ↔ exprs = [] := by
  obtain ⟨mid, hperm, hsame⟩ := h
  constructor
  · rintro rfl
    cases hsame
    exact hperm.eq_nil
  · rintro rfl
    cases hperm.nil_eq
    cases hsame
    rfl

/-- Where a token that asks for all comes first, the list is accepted. -/
theorem accepted_of_first {token : List Char} {tail : List (List Char)}
    {rest : List (List Char)} (h : tokensOf spec = token :: tail) (hall : IsAll token) :
    fromExprs table (spec :: rest) = .ok .All := by
  have hstop : specStop table spec = some (.ok .All) := by
    unfold specStop
    unfold tokensOf at h
    cases hset : setOf spec with
    | error message =>
      rw [hset] at h
      cases h
    | ok set =>
      rw [hset] at h
      dsimp only at h ⊢
      rw [h, List.findSome?_cons, tokenStop, if_pos hall]
  rw [fromExprs_eq (List.cons_ne_nil _ _), List.findSome?_cons, hstop]
  rfl

theorem SameTokens.refl (spec : List Char) : SameTokens spec spec := ⟨rfl, .refl _⟩

/-- The tokens of an expression can be ordered with any of them first. -/
theorem exists_first {token : List Char} (h : token ∈ tokensOf spec) :
    ∃ spec' tail, SameTokens spec spec' ∧ tokensOf spec' = token :: tail := by
  obtain ⟨m, -, hset, -⟩ | ⟨hset, -⟩ := (SameTokens.refl spec).setOf
  · rw [tokensOf, hset] at h
    cases h
  · rw [tokensOf, hset] at h
    obtain ⟨hmem, hne⟩ := List.mem_filter.mp h
    obtain ⟨piece, hpiece, rfl⟩ := List.mem_map.mp hmem
    obtain ⟨l, r, hsplit⟩ := List.append_of_mem hpiece
    have hperm : ((parts spec).2.splitOn ',').Perm (piece :: (l ++ r)) :=
      hsplit ▸ List.perm_middle
    obtain ⟨spec', hsame, hpieces⟩ := exists_sameTokens hperm
    refine ⟨spec', ((l ++ r).map trim).filter fun t => t ≠ [], hsame, ?_⟩
    obtain ⟨m, -, hset', -⟩ | ⟨-, hset'⟩ := hsame.setOf
    · cases hset.symm.trans hset'
    · rw [tokensOf, hset']
      dsimp only
      rw [tokens, hpieces, List.map_cons]
      exact List.filter_cons_of_pos hne

/-- A list with a token that asks for all has a rearrangement in which it comes first. -/
theorem exists_rearranged (h : HasAll exprs) :
    ∃ exprs', Rearranged exprs exprs' ∧ Accepted table exprs' := by
  obtain ⟨spec, hs, token, ht, hall⟩ := h
  obtain ⟨l, r, rfl⟩ := List.append_of_mem hs
  obtain ⟨spec', tail, hsame, hfirst⟩ := exists_first ht
  refine ⟨spec' :: (l ++ r), ⟨spec :: (l ++ r), List.perm_middle, .cons hsame ?_⟩, .All, ?_⟩
  · exact List.forall₂_same.mpr fun s _ => .refl s
  · exact accepted_of_first hfirst hall

theorem rejected_iff (h : ¬ (HasAll exprs ∧ Bad table exprs)) :
    (∃ message, fromExprs table exprs = .error message) ↔ Bad table exprs := by
  cases given table exprs with
  | all hf hall =>
    constructor
    · rintro ⟨message, hm⟩
      cases hf.symm.trans hm
    · rintro ⟨spec, hs, hbad⟩
      obtain rfl | hall := hall
      · cases hs
      · exact absurd ⟨hall, spec, hs, hbad⟩ h
  | error message hf hbad => exact ⟨fun _ => hbad, fun _ => ⟨message, hf⟩⟩
  | numbers hf _ hbad _ =>
    refine ⟨?_, fun hb => absurd hb hbad⟩
    rintro ⟨message, hm⟩
    cases hf.symm.trans hm

theorem accepted_iff (h : ¬ (HasAll exprs ∧ Bad table exprs)) :
    Accepted table exprs ↔ ¬ Bad table exprs := by
  rw [← rejected_iff h, Accepted]
  cases fromExprs table exprs <;> simp

/-- The order makes no difference exactly where the list does not both ask for all and have
something bad in it. -/
theorem orderFree_iff : OrderFree table exprs ↔ ¬ (HasAll exprs ∧ Bad table exprs) := by
  constructor
  · rintro ⟨hrej, hacc, -⟩ ⟨hall, hbad⟩
    obtain ⟨exprs', hre, hacc'⟩ : ∃ exprs', Rearranged exprs exprs' ∧ Accepted table exprs' :=
      exists_rearranged hall
    obtain ⟨f, hf⟩ := (hacc exprs' hre).mp hacc'
    obtain ⟨message, hm⟩ := hrej.mpr hbad
    cases hf.symm.trans hm
  · intro h
    refine ⟨rejected_iff h, fun exprs' hre => ?_, fun exprs' hre f f' hf hf' nr => ?_⟩
    · have h' : ¬ (HasAll exprs' ∧ Bad table exprs') := by rwa [hre.hasAll, hre.bad]
      rw [accepted_iff h, accepted_iff h', hre.bad]
    · cases given table exprs with
      | all ha hall =>
        cases ha.symm.trans hf
        cases given table exprs' with
        | all ha' =>
          cases ha'.symm.trans hf'
          rfl
        | error _ he => cases he.symm.trans hf'
        | numbers _ hne _ hnone =>
          exact absurd hall (not_or.mpr ⟨hre.eq_nil.not.mp hne, hre.hasAll.not.mp hnone⟩)
      | error _ he => cases he.symm.trans hf
      | numbers hn hne _ hnone =>
        cases hn.symm.trans hf
        cases given table exprs' with
        | all _ hall =>
          exact absurd hall (not_or.mpr ⟨hre.eq_nil.not.mpr hne, hre.hasAll.not.mpr hnone⟩)
        | error _ he => cases he.symm.trans hf'
        | numbers hn' =>
          cases hn'.symm.trans hf'
          rw [hre.collected]

/-- `-e all -e x` is accepted, `-e x -e all` is not. -/
theorem all_hides_unknown : ¬ ∀ exprs, OrderFree SYSCALLS exprs := by
  intro h
  refine orderFree_iff.mp (h ["all".toList, "x".toList]) ⟨⟨_, List.mem_cons_self, ?_⟩, ?_⟩
  · exact ⟨"all".toList, by decide +kernel, by decide +kernel⟩
  · refine ⟨"x".toList, List.mem_cons_of_mem _ (List.mem_singleton_self _), .inr ⟨"x".toList, ?_⟩⟩
    exact ⟨by decide +kernel, by decide +kernel⟩

end Syren.Filter
