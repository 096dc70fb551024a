import Syren.Decode.Decode
import Syren.Folding.Bisect
import Syren.Gen.Tbl

/-! From the text of a syscall table to the look-up of a call by its number. -/
namespace Syren
open Gen Text

/-- A table with its rows in the order of their numbers, none of which is there twice. -/
def Increasing (table : List SyscallInfo) : Prop := table.Pairwise fun a b => a.number < b.number

/-- The number of a row by its index. -/
def numberAt (table : List SyscallInfo) (i : ℕ) : ℕ := (table[i]?.map (·.number.toNat)).getD 0

/-- `syscall_by_number`, with its binary search. -/
def searchByNumber (table : List SyscallInfo) (number : UInt32) : Option SyscallInfo :=
  (Folding.binarySearch (numberAt table) number.toNat table.length).bind fun i => table[i]?

variable {table : List SyscallInfo}

theorem syscallByNumber_of_mem (h : Increasing table) {info : SyscallInfo} (hinfo : info ∈ table) :
    syscallByNumber table info.number = some info := by
  have hne : table.Pairwise fun a b => a.number ≠ b.number :=
    h.imp fun hlt heq => by simp [heq] at hlt
  clear h
  unfold syscallByNumber
  induction table with
  | nil => simp at hinfo
  | cons row table ih =>
    rw [List.pairwise_cons] at hne
    rcases List.mem_cons.mp hinfo with rfl | hinfo
    · simp
    · rw [List.find?_cons_of_neg (by simpa using hne.1 info hinfo)]
      exact ih hinfo hne.2

theorem numberAt_mono (h : Increasing table) (i j : ℕ) (hij : i ≤ j) (hj : j < table.length) :
    numberAt table i ≤ numberAt table j := by
  rcases Nat.eq_or_lt_of_le hij with rfl | hlt
  · exact Nat.le_refl _
  · have hnumbers := List.pairwise_iff_getElem.mp h i j (by omega) hj hlt
    have hi : i < table.length := by omega
    simpa [numberAt, hi, hj, UInt32.le_iff_toNat_le] using hnumbers.le

/-- On a table in order the binary search finds the row that a search from the front finds. -/
theorem searchByNumber_eq (h : Increasing table) (number : UInt32) :
    searchByNumber table number = syscallByNumber table number := by
  have hsome := Folding.binarySearch_isSome (x := number.toNat) (numberAt_mono h)
  unfold searchByNumber
  cases hsearch : Folding.binarySearch (numberAt table) number.toNat table.length with
  | some i =>
    obtain ⟨hi, hkey⟩ := Folding.binarySearch_sound hsearch
    have hnumber : table[i].number = number := by
      simpa [numberAt, hi, UInt32.toNat_inj] using hkey
    have hfound := syscallByNumber_of_mem h (List.getElem_mem hi)
    rw [hnumber] at hfound
    simp [hfound, hi]
  | none =>
    have hnone : ∀ info ∈ table, info.number ≠ number := by
      intro info hinfo hnumber
      obtain ⟨i, hi, rfl⟩ := List.getElem_of_mem hinfo
      rw [hsearch] at hsome
      exact absurd (hsome.mpr ⟨i, hi, by simp [numberAt, hi, hnumber]⟩) (by simp)
    rw [Option.bind_none, syscallByNumber, eq_comm, List.find?_eq_none]
    simpa using hnone

/-- The table of the build is in order. -/
theorem increasing_SYSCALLS : Increasing SYSCALLS := by
  have hchain : (ENTRIES.map (·.1.toNat)).IsChain (· < ·) := by decide +kernel
  have hsorted := hchain.pairwise
  rw [List.pairwise_map] at hsorted
  exact List.pairwise_map.mpr (hsorted.imp fun hlt => UInt32.lt_iff_toNat_lt.mpr hlt)

theorem searchByNumber_SYSCALLS (number : UInt32) :
    searchByNumber SYSCALLS number = syscallByNumber SYSCALLS number :=
  searchByNumber_eq increasing_SYSCALLS number

section Missing

variable {ev : SyscallEvent}

theorem info_some {info : SyscallInfo} (h : Increasing table) (hinfo : info ∈ table)
    (hnr : ev.nr.toNat = info.number.toNat) :
    ev.info table = some info ∧ syscallName table ev.nr = info.name.toList := by
  have hfits := info.number.toNat_lt
  have hnumber : ev.nr.toUInt32 = info.number := by
    rw [← UInt32.toNat_inj, UInt64.toNat_toUInt32, hnr, Nat.mod_eq_of_lt hfits]
  have hbind : (tryU32 ev.nr).bind (syscallByNumber table) = some info := by
    rw [tryU32, if_pos (by omega), Option.bind_some, hnumber, syscallByNumber_of_mem h hinfo]
  simp [SyscallEvent.info, syscallName, hbind]

theorem info_none (h : ∀ info ∈ table, ev.nr.toNat ≠ info.number.toNat) :
    ev.info table = none ∧ syscallName table ev.nr = "syscall_".toList ++ dec ev.nr.toNat := by
  have hbind : (tryU32 ev.nr).bind (syscallByNumber table) = none := by
    unfold tryU32
    split_ifs with hfits
    · rw [Option.bind_some, syscallByNumber, List.find?_eq_none]
      intro info hinfo hnumber
      apply h info hinfo
      rw [of_decide_eq_true hnumber, UInt64.toNat_toUInt32, Nat.mod_eq_of_lt hfits]
    · rfl
  simp [SyscallEvent.info, syscallName, hbind]

end Missing

/-- The parser gives the rows of a table and no others, in order, and a call is looked up as the row
of its number. -/
structure ReadsBack (ls : List TblLine) : Prop where
  rows : (parseTbl (tblText ls)).Perm ((kept ls).map TblRow.entry)
  increasing : (parseTbl (tblText ls)).Pairwise fun a b => a.number < b.number
  searched : ∀ number, searchByNumber (generate (tblText ls)) number =
    syscallByNumber (generate (tblText ls)) number
  found : ∀ r ∈ kept ls, ∀ ev : SyscallEvent, ev.nr.toNat = r.value.toNat →
    ev.info (generate (tblText ls)) = some (row (r.value, r.entry.name)) ∧
      syscallName (generate (tblText ls)) ev.nr = r.name.chars
  missing : ∀ ev : SyscallEvent, (∀ r ∈ kept ls, ev.nr.toNat ≠ r.value.toNat) →
    ev.info (generate (tblText ls)) = none ∧
      syscallName (generate (tblText ls)) ev.nr = "syscall_".toList ++ dec ev.nr.toNat

theorem mem_generate {ls : List TblLine} {info : SyscallInfo} :
    info ∈ generate (tblText ls) ↔ ∃ r ∈ kept ls, row (r.value, r.entry.name) = info := by
  simp [generate, (parseTbl_perm ls).mem_iff, TblRow.entry]

/-- Every table whose rows have different numbers is read back. -/
theorem tbl_readsBack (ls : List TblLine) (h : ((kept ls).map TblRow.value).Nodup) :
    ReadsBack ls := by
  have hperm := parseTbl_perm ls
  have hnumbers : ((parseTbl (tblText ls)).map (·.number)).Nodup := by
    rw [(hperm.map _).nodup_iff, List.map_map]
    exact h
  have hincreasing : (parseTbl (tblText ls)).Pairwise fun a b => a.number < b.number := by
    have hboth := (parseTbl_sorted (tblText ls)).and (List.pairwise_map.mp hnumbers)
    exact hboth.imp fun hab => UInt32.lt_of_le_of_ne hab.1 hab.2
  have htable : Increasing (generate (tblText ls)) := List.pairwise_map.mpr hincreasing
  refine ⟨hperm, hincreasing, searchByNumber_eq htable, fun r hr ev hnr => ?_, fun ev hev => ?_⟩
  · obtain ⟨hinfo, hname⟩ := info_some htable (mem_generate.mpr ⟨r, hr, rfl⟩) hnr
    exact ⟨hinfo, by simpa [row, TblRow.entry] using hname⟩
  · apply info_none
    intro info hinfo
    obtain ⟨r, hr, rfl⟩ := mem_generate.mp hinfo
    exact hev r hr

/-- A comment, a blank line and three rows out of order, one of them for x32 only. -/
theorem tbl_readsBack_three : ReadsBack [
    .comment { chars := [' '] } "number abi".toList (by decide),
    .row {
      lead := { chars := [] }
      number := { chars := "09".toList }
      beforeAbi := { chars := ['\t'] }
      abi := .Common
      beforeName := { chars := [' ', '\t'] }
      name := { chars := "mmap".toList }
      more := [({ chars := ['\t'] }, { chars := "sys_mmap".toList })]
      trail := { chars := ['\r'] } },
    .blank { chars := ['\r'] },
    .row {
      lead := { chars := [' '] }
      number := { chars := "0".toList }
      beforeAbi := { chars := [' '] }
      abi := .B64
      beforeName := { chars := [' '] }
      name := { chars := "read".toList }
      more := []
      trail := { chars := [] } },
    .row {
      lead := { chars := [] }
      number := { chars := "9".toList }
      beforeAbi := { chars := [' '] }
      abi := .X32
      beforeName := { chars := [' '] }
      name := { chars := "other".toList }
      more := []
      trail := { chars := [] } }] :=
  tbl_readsBack _ (by decide)

end Syren
