import Syren.Output.Summary

/-! What the summary prints for a sequence of records, whatever their order and the order in which
the map iterates over its entries. -/
namespace Syren.Output
open Folding Syren.Text

/-- The syscalls among the records. -/
def syscalls (recs : List Record) : List DecodedSyscall :=
  recs.filterMap fun rec => match rec with
    | .syscall s => some s
    | _ => none

/-- What is counted of some calls. -/
def statOf (calls : List DecodedSyscall) : Stat where
  calls := calls.length
  errors := calls.countP (·.error.isSome)
  totalNs := (calls.map (·.durationNs.toNat)).sum

/-- The calls of a syscall. -/
def callsOf (recs : List Record) (name : List Char) : List DecodedSyscall :=
  (syscalls recs).filter (·.name = name)

namespace SummarySink

/-- The sink after some records. -/
def run (recs : List Record) : SummarySink := recs.foldl record new

/-- The map iterates over its entries in this order. -/
def Iterates (sink : SummarySink) (entries : List Row) : Prop :=
  (entries : Multiset Row) = sink.stats.entries

/-- The order of rows: more time first, then more calls, then by name. -/
def Before (a b : Row) : Prop :=
  b.2.totalNs < a.2.totalNs ∨ b.2.totalNs = a.2.totalNs ∧
    (b.2.calls < a.2.calls ∨ b.2.calls = a.2.calls ∧ a.1 < b.1)

/-- The rows are those of the records. -/
structure Summarizes (recs : List Record) (rows : List Row) : Prop where
  distinct : (rows.map Sigma.fst).Nodup
  complete : ∀ name, name ∈ rows.map Sigma.fst ↔ ∃ s ∈ syscalls recs, s.name = name
  exact : ∀ row ∈ rows, row.2 = statOf (callsOf recs row.1) ∧ 0 < row.2.calls ∧
    usecs row.2 = row.2.totalNs / row.2.calls / 1000
  ordered : rows.Pairwise Before
  calls : totalCalls rows = (rows.map fun row => row.2.calls).sum ∧
    totalCalls rows = (syscalls recs).length
  errors : totalErrors rows = (rows.map fun row => row.2.errors).sum ∧
    totalErrors rows = (syscalls recs).countP (·.error.isSome)
  fits : (syscalls recs).length < 2 ^ 64 →
    (∀ row ∈ rows, row.2.calls < 2 ^ 64 ∧ row.2.errors < 2 ^ 64) ∧
    totalCalls rows < 2 ^ 64 ∧ totalErrors rows < 2 ^ 64 ∧ grand rows < 2 ^ 128

/-- A line of right-aligned columns and a name. -/
def aligned (pct secs usecs calls errors name : List Char) : List Char :=
  padLeft 6 pct ++ ' ' :: padLeft 11 secs ++ ' ' :: padLeft 11 usecs ++ ' ' :: padLeft 9 calls ++
    ' ' :: padLeft 9 errors ++ ' ' :: name

/-- The table of some records, with the syscalls in this order: what is counted of the calls of
each, and of all calls. A count of errors that is zero is left blank. -/
def summaryOf (floats : Floats) (recs : List Record) (names : List (List Char)) :
    List (List Char) :=
  let all := statOf (syscalls recs)
  let count := fun n => if n = 0 then [] else dec n
  [aligned "% time".toList "seconds".toList "usecs/call".toList "calls".toList "errors".toList
      "syscall".toList, rule] ++
    names.map (fun name =>
      let s := statOf (callsOf recs name)
      aligned (if all.totalNs = 0 then "0.00".toList else floats.pct s.totalNs all.totalNs)
        (floats.secs s.totalNs) (dec (s.totalNs / s.calls / 1000)) (dec s.calls) (count s.errors)
        name) ++
    [rule, aligned "100.00".toList (floats.secs all.totalNs) [] (dec all.calls) (count all.errors)
      "total".toList]

variable {recs recs' : List Record} {entries entries' : List Row}

theorem run_stats (recs : List Record) :
    (run recs).stats = tally (·.name) Stat.zero Stat.add ∅ (syscalls recs) := by
  suffices h : ∀ sink : SummarySink, (recs.foldl record sink).stats =
      tally (·.name) Stat.zero Stat.add sink.stats (syscalls recs) from h new
  induction recs with
  | nil => exact fun _ => rfl
  | cons rec recs ih =>
    intro sink
    rw [List.foldl_cons, ih]
    cases rec <;> rfl

theorem foldl_add (calls : List DecodedSyscall) (stat : Stat) : calls.foldl Stat.add stat =
    ⟨stat.calls + (statOf calls).calls, stat.errors + (statOf calls).errors,
      stat.totalNs + (statOf calls).totalNs⟩ := by
  induction calls generalizing stat with
  | nil => rfl
  | cons s calls ih =>
    rw [List.foldl_cons, ih]
    cases hs : s.error.isSome <;>
      simp [statOf, Stat.add, hs, Nat.add_assoc, Nat.add_comm, Nat.add_left_comm]

/-- The entry of a name is what is counted of its calls. -/
theorem lookup_run (recs : List Record) (name : List Char) : (run recs).stats.lookup name =
    if ∃ s ∈ syscalls recs, s.name = name then some (statOf (callsOf recs name)) else none := by
  rw [run_stats, lookup_tally, foldl_add]
  simp [Stat.zero, callsOf]

theorem statOf_perm {l m : List DecodedSyscall} (h : l.Perm m) : statOf l = statOf m := by
  unfold statOf
  rw [h.length_eq, h.countP_eq, (h.map _).sum_eq]

/-- The order of the calls makes no difference to what is kept. -/
theorem run_perm (h : (syscalls recs).Perm (syscalls recs')) :
    (run recs).stats = (run recs').stats := by
  apply Finmap.ext_lookup
  intro name
  have hsame : statOf (callsOf recs name) = statOf (callsOf recs' name) :=
    statOf_perm (h.filter _)
  simp only [lookup_run, h.mem_iff, hsame]

theorem Iterates.lookup (h : Iterates (run recs) entries) {row : Row} (hr : row ∈ entries) :
    (run recs).stats.lookup row.1 = some row.2 := by
  apply Finmap.lookup_eq_some_iff.mpr
  rw [← h]
  exact hr

theorem isLE_cmp {α : Type} [LinearOrder α] (dec : DecidableLT α) (a b : α) :
    (@cmp α _ dec a b).isLE = true ↔ a ≤ b := by
  unfold cmp cmpUsing
  split_ifs with h h'
  · exact iff_of_true rfl h.le
  · exact iff_of_false Bool.false_ne_true (not_le.mpr h')
  · exact iff_of_true rfl (not_lt.mp h')

theorem isLE_compareRows {a b : Row} : (compareRows a b).isLE = true ↔
    b.2.totalNs < a.2.totalNs ∨ b.2.totalNs = a.2.totalNs ∧
      (b.2.calls < a.2.calls ∨ b.2.calls = a.2.calls ∧ a.1 ≤ b.1) := by
  have hname : (cmp a.1 b.1).isLE = true ↔ a.1 ≤ b.1 := isLE_cmp _ a.1 b.1
  unfold compareRows
  rw [Ordering.isLE_then_iff_or, Ordering.then_eq_lt, Ordering.then_eq_eq, hname, cmp_eq_lt_iff,
    cmp_eq_lt_iff, cmp_eq_eq_iff, cmp_eq_eq_iff]
  tauto

theorem compareRows_trans (a b c : Row) (h : (compareRows a b).isLE = true)
    (h' : (compareRows b c).isLE = true) : (compareRows a c).isLE = true := by
  rw [isLE_compareRows] at *
  rcases h with h | ⟨h, h₁ | ⟨h₁, h₂⟩⟩ <;> rcases h' with h' | ⟨h', h₁' | ⟨h₁', h₂'⟩⟩ <;>
    first
    | exact .inr ⟨h'.trans h, .inr ⟨h₁'.trans h₁, h₂.trans h₂'⟩⟩
    | omega

theorem compareRows_total (a b : Row) :
    ((compareRows a b).isLE || (compareRows b a).isLE) = true := by
  rw [Bool.or_eq_true, isLE_compareRows, isLE_compareRows]
  rcases le_total a.1 b.1 with h | h
  · have hab : (b.2.calls = a.2.calls ∧ a.1 ≤ b.1) ↔ b.2.calls = a.2.calls := and_iff_left h
    rw [hab]
    omega
  · have hba : (a.2.calls = b.2.calls ∧ b.1 ≤ a.1) ↔ a.2.calls = b.2.calls := and_iff_left h
    rw [hba]
    omega

/-- Rows of one map that are each before the other are the same row. -/
theorem Iterates.antisymm (h : Iterates (run recs) entries) {a b : Row} (ha : a ∈ entries)
    (hb : b ∈ entries) (hab : (compareRows a b).isLE = true) (hba : (compareRows b a).isLE = true) :
    a = b := by
  rw [isLE_compareRows] at hab hba
  have hname : a.1 = b.1 := by
    rcases hab with hab | ⟨hab, hab₁ | ⟨hab₁, hab₂⟩⟩ <;>
      rcases hba with hba | ⟨hba, hba₁ | ⟨hba₁, hba₂⟩⟩ <;>
      first
      | exact le_antisymm hab₂ hba₂
      | omega
  obtain ⟨name, stat⟩ := a
  obtain ⟨name', stat'⟩ := b
  obtain rfl : name = name' := hname
  have hstat : stat = stat' := Option.some_inj.mp ((h.lookup ha).symm.trans (h.lookup hb))
  rw [hstat]

theorem sortRows_perm (entries : List Row) : (sortRows entries).Perm entries :=
  List.mergeSort_perm _ _

theorem sortRows_pairwise (entries : List Row) :
    (sortRows entries).Pairwise fun a b => (compareRows a b).isLE = true :=
  List.pairwise_mergeSort compareRows_trans compareRows_total entries

/-- However the map iterates over its entries, the rows come in the same order. -/
theorem sortRows_eq (h : Iterates (run recs) entries) (hp : entries.Perm entries') :
    sortRows entries = sortRows entries' := by
  refine List.Perm.eq_of_pairwise (fun a b ha hb => ?_) (sortRows_pairwise entries)
    (sortRows_pairwise entries')
    ((sortRows_perm entries).trans (hp.trans (sortRows_perm entries').symm))
  have hb' : b ∈ entries := hp.mem_iff.mpr ((sortRows_perm entries').mem_iff.mp hb)
  exact h.antisymm ((sortRows_perm entries).mem_iff.mp ha) hb'

theorem finish_eq (floats : Floats) (h : Iterates (run recs) entries)
    (hp : entries.Perm entries') : finish floats entries = finish floats entries' := by
  have hgrand : grand entries = grand entries' := (hp.map _).sum_eq
  unfold finish
  rw [hgrand, sortRows_eq h hp]

theorem foldl_sum (f : Row → ℕ) (rows : List Row) (n : ℕ) :
    rows.foldl (fun n row => n + f row) n = n + (rows.map f).sum := by
  induction rows generalizing n with
  | nil => rfl
  | cons row rows ih => rw [List.foldl_cons, ih, List.map_cons, List.sum_cons, Nat.add_assoc]

theorem totalCalls_eq (rows : List Row) :
    totalCalls rows = (rows.map fun row => row.2.calls).sum := by
  rw [totalCalls, foldl_sum, Nat.zero_add]

theorem totalErrors_eq (rows : List Row) :
    totalErrors rows = (rows.map fun row => row.2.errors).sum := by
  rw [totalErrors, foldl_sum, Nat.zero_add]

theorem Iterates.nodup (h : Iterates (run recs) entries) : (entries.map Sigma.fst).Nodup := by
  have hkeys := (run recs).stats.nodupKeys
  rw [← h] at hkeys
  exact Multiset.coe_nodupKeys.mp hkeys

theorem Iterates.mem_names (h : Iterates (run recs) entries) {name : List Char} :
    name ∈ entries.map Sigma.fst ↔ ∃ s ∈ syscalls recs, s.name = name := by
  have hlook := lookup_run recs name
  constructor
  · intro hn
    obtain ⟨row, hr, rfl⟩ := List.mem_map.mp hn
    by_contra hno
    rw [if_neg hno] at hlook
    cases hlook.symm.trans (h.lookup hr)
  · intro hs
    rw [if_pos hs] at hlook
    have hmem := Finmap.lookup_eq_some_iff.mp hlook
    rw [← h] at hmem
    exact List.mem_map.mpr ⟨_, hmem, rfl⟩

/-- What the rows add up to is what the calls add up to. -/
theorem Iterates.sum (h : Iterates (run recs) entries) {f : Stat → ℕ}
    {weight : DecodedSyscall → ℕ} (hzero : f Stat.zero = 0)
    (hadd : ∀ stat s, f (stat.add s) = f stat + weight s) :
    (entries.map fun row => f row.2).sum = ((syscalls recs).map weight).sum := by
  have hsum : ((tally (·.name) Stat.zero Stat.add ∅ (syscalls recs)).entries.map fun e =>
      f e.2).sum = _ := sum_tally hzero hadd (syscalls recs)
  rw [← run_stats, ← h, Multiset.map_coe, Multiset.sum_coe] at hsum
  rw [hsum]
  exact Nat.zero_add _

theorem sum_indicator {α : Type} (p : α → Bool) (l : List α) :
    (l.map fun a => if p a then 1 else 0).sum = l.countP p := by
  induction l with
  | nil => rfl
  | cons a l ih => rw [List.map_cons, List.sum_cons, ih, List.countP_cons, Nat.add_comm]

theorem before_of_isLE {a b : Row} (hne : a.1 ≠ b.1) (h : (compareRows a b).isLE = true) :
    Before a b := by
  rw [isLE_compareRows] at h
  exact h.imp_right fun h' => h'.imp_right fun h'' => h''.imp_right fun h₂ =>
    ⟨h₂.1, lt_of_le_of_ne h₂.2 hne⟩

theorem grand_eq (h : Iterates (run recs) entries) :
    grand entries = (statOf (syscalls recs)).totalNs :=
  h.sum rfl fun _ _ => rfl

/-- Fewer than `2 ^ 64` durations of 64 bits add up to less than `2 ^ 128`. -/
theorem totalNs_lt {calls : List DecodedSyscall} (h : calls.length < 2 ^ 64) :
    (statOf calls).totalNs < 2 ^ 128 := by
  have hsum : (statOf calls).totalNs ≤ calls.length * (2 ^ 64 - 1) := by
    clear h
    induction calls with
    | nil => exact Nat.zero_le _
    | cons s calls ih =>
      have hone := s.durationNs.toNat_lt
      simp only [statOf, List.map_cons, List.sum_cons, List.length_cons] at ih ⊢
      omega
  omega

/-- The rows are those of the records, in order. -/
theorem summarizes (h : Iterates (run recs) entries) : Summarizes recs (sortRows entries) := by
  have hperm := sortRows_perm entries
  have hnodup : ((sortRows entries).map Sigma.fst).Nodup := (hperm.map _).nodup_iff.mpr h.nodup
  have exact (row : Row) (hr : row ∈ sortRows entries) : row.2 = statOf (callsOf recs row.1) ∧
      0 < row.2.calls ∧ usecs row.2 = row.2.totalNs / row.2.calls / 1000 := by
    have hlook := h.lookup (hperm.mem_iff.mp hr)
    have hname : ∃ s ∈ syscalls recs, s.name = row.1 :=
      h.mem_names.mp (List.mem_map_of_mem (hperm.mem_iff.mp hr))
    rw [lookup_run, if_pos hname] at hlook
    have hstat := (Option.some_inj.mp hlook).symm
    have hpos : 0 < row.2.calls := by
      obtain ⟨s, hs, hsn⟩ := hname
      rw [hstat]
      exact List.length_pos_of_mem (List.mem_filter.mpr ⟨hs, decide_eq_true hsn⟩)
    exact ⟨hstat, hpos, if_neg hpos.ne'⟩
  have hcalls : totalCalls (sortRows entries) = (syscalls recs).length := by
    have hone : ((entries.map fun row => row.2.calls).sum) = ((syscalls recs).map fun _ => 1).sum :=
      h.sum rfl fun _ _ => rfl
    rw [totalCalls_eq, (hperm.map _).sum_eq, hone]
    simp
  have herrors : totalErrors (sortRows entries) = (syscalls recs).countP (·.error.isSome) := by
    have hone : ((entries.map fun row => row.2.errors).sum) =
        ((syscalls recs).map fun s => if s.error.isSome then 1 else 0).sum := by
      apply h.sum rfl
      intro stat s
      cases hs : s.error.isSome <;> simp [Stat.add, hs]
    rw [totalErrors_eq, (hperm.map _).sum_eq, hone]
    exact sum_indicator _ _
  refine ⟨hnodup, fun name => ?_, exact, ?_, ⟨totalCalls_eq _, hcalls⟩, ⟨totalErrors_eq _, herrors⟩,
    fun hlen => ⟨fun row hr => ?_, hcalls ▸ hlen, ?_, ?_⟩⟩
  · rw [(hperm.map _).mem_iff]
    exact h.mem_names
  · have hne := List.pairwise_map.mp hnodup
    exact (hne.and (sortRows_pairwise entries)).imp fun hab => before_of_isLE hab.1 hab.2
  · have hle : (callsOf recs row.1).length ≤ (syscalls recs).length := List.length_filter_le ..
    rw [(exact row hr).1]
    exact ⟨hle.trans_lt hlen, (List.countP_le_length.trans hle).trans_lt hlen⟩
  · rw [herrors]
    exact List.countP_le_length.trans_lt hlen
  · have hsame : grand (sortRows entries) = grand entries := (hperm.map _).sum_eq
    rw [hsame, grand_eq h]
    exact totalNs_lt hlen

theorem rowLine_aligned (floats : Floats) (total : ℕ) (row : Row) : rowLine floats total row =
    aligned (if total = 0 then "0.00".toList else floats.pct row.2.totalNs total)
      (floats.secs row.2.totalNs) (dec (usecs row.2)) (dec row.2.calls) (errorsCell row.2.errors)
      row.1 := rfl

theorem totalLine_aligned (floats : Floats) (total calls errors : ℕ) :
    totalLine floats total calls errors = aligned "100.00".toList (floats.secs total) [] (dec calls)
      (errorsCell errors) "total".toList := by
  have hlast : " total".toList = ' ' :: "total".toList := by decide
  rw [totalLine, hlast]
  rfl

/-- What is printed is the table of the records, with the syscalls in the order of the rows. -/
theorem finish_summaryOf (floats : Floats) (h : Iterates (run recs) entries) :
    finish floats entries = summaryOf floats recs ((sortRows entries).map Sigma.fst) := by
  have hsum := summarizes h
  have hheader : header = aligned "% time".toList "seconds".toList "usecs/call".toList
      "calls".toList "errors".toList "syscall".toList := by decide
  have hrows : (sortRows entries).map (rowLine floats (grand entries)) =
      ((sortRows entries).map Sigma.fst).map fun name =>
        let s := statOf (callsOf recs name)
        aligned (if grand entries = 0 then "0.00".toList else floats.pct s.totalNs (grand entries))
          (floats.secs s.totalNs) (dec (s.totalNs / s.calls / 1000)) (dec s.calls)
          (errorsCell s.errors) name := by
    rw [List.map_map]
    refine List.map_congr_left fun row hr => ?_
    obtain ⟨hstat, -, husecs⟩ := hsum.exact row hr
    rw [rowLine_aligned, husecs, hstat]
    rfl
  rw [finish, hrows, totalLine_aligned, hheader, hsum.calls.2, hsum.errors.2, grand_eq h]
  rfl

/-- The printed summary depends on nothing but which calls were recorded: it is their table, with
the syscalls in the order of the rows. -/
theorem summary_of_multiset (floats : Floats) (hcalls : (syscalls recs).Perm (syscalls recs'))
    (h : Iterates (run recs) entries) (h' : Iterates (run recs') entries') :
    finish floats entries = finish floats entries' ∧ ∃ rows, Summarizes recs rows ∧
      finish floats entries = summaryOf floats recs (rows.map Sigma.fst) := by
  have hp : entries.Perm entries' := by
    refine Multiset.coe_eq_coe.mp (h.trans (Eq.trans ?_ h'.symm))
    rw [run_perm hcalls]
  exact ⟨finish_eq floats h hp, _, summarizes h, finish_summaryOf floats h⟩

/-- A call that returned zero or failed. -/
def sampleCall (name : List Char) (error : Option DecodedError) (ns : UInt64) : Record :=
  .syscall ⟨1, 1, 0, name, [], 0, error, ns, 0⟩

/-- Two reads and a failed close, with another record among them. -/
def sampleRecords : List Record :=
  [sampleCall ['r'] none 10, .signal 1 17,
    sampleCall ['c'] (some ⟨9, "EBADF", "Bad file descriptor"⟩) 500, sampleCall ['r'] none 7000]

theorem summary_of_multiset_reads :
    finish ⟨fun _ _ => [], fun _ => []⟩ [⟨['c'], 1, 1, 500⟩, ⟨['r'], 2, 0, 7010⟩] =
        finish ⟨fun _ _ => [], fun _ => []⟩ [⟨['r'], 2, 0, 7010⟩, ⟨['c'], 1, 1, 500⟩] ∧
      ∃ rows, Summarizes sampleRecords rows ∧
        finish ⟨fun _ _ => [], fun _ => []⟩ [⟨['c'], 1, 1, 500⟩, ⟨['r'], 2, 0, 7010⟩] =
          summaryOf ⟨fun _ _ => [], fun _ => []⟩ sampleRecords (rows.map Sigma.fst) :=
  have hother : Iterates (run [sampleCall ['r'] none 7000, .exit 1 0, sampleCall ['r'] none 10,
      sampleCall ['c'] (some ⟨9, "EBADF", "Bad file descriptor"⟩) 500])
      [⟨['r'], 2, 0, 7010⟩, ⟨['c'], 1, 1, 500⟩] := by
    unfold Iterates
    decide
  summary_of_multiset _ (by decide) (by unfold Iterates; decide) hother

end SummarySink

end Syren.Output
