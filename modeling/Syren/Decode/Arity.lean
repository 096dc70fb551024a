import Syren.Decode.Extension

/-! How many arguments a call is shown with: those that its prototype declares, or the registers
that are in use when there is no prototype. -/
namespace Syren

/-- The prototype of the call of an event, if the metadata has one. -/
def declared (ev : SyscallEvent) : Option Gen.SyscallMeta :=
  (ev.info SYSCALLS).bind fun info => Gen.lookup info.name

/-- The decoded arguments are the declared ones, in order and with their registers; without a
prototype they are the registers up to trailing zeros. -/
def Arity (ev : SyscallEvent) (mem : MemoryReader) : Prop :=
  match declared ev with
  | some m => m.args.length ≤ 6 ∧ ∀ k : ℕ,
      (decode SYSCALLS ev mem).args[k]?.map (fun a : DecodedArg => (a.name, a.raw)) =
        m.args[k]?.map fun arg : ArgInfo => (some arg.name, ev.args[k]!)
  | none => (decode SYSCALLS ev mem).args.length ≤ 6 ∧
      ((decode SYSCALLS ev mem).args.map DecodedArg.raw).rightpad 6 0 = ev.args.toList

/-- No register is in use by a call that is declared to take no arguments. -/
def NoLeftovers (ev : SyscallEvent) : Prop :=
  ∀ m, declared ev = some m → m.args = [] → ∀ raw ∈ ev.args.toList, raw = 0

theorem rdropWhile_padded (raws : List UInt64) :
    (raws.rdropWhile (· = 0)).rightpad raws.length 0 = raws := by
  induction raws using List.reverseRecOn with
  | nil => rfl
  | append_singleton raws raw ih =>
    by_cases hraw : raw = 0
    · have hle : (raws.rdropWhile (· = 0)).length ≤ raws.length :=
        (List.rdropWhile_prefix _ _).length_le
      rw [List.rdropWhile_concat_pos _ _ _ (by simpa using hraw), List.length_append,
        List.length_singleton, List.rightpad, Nat.sub_add_comm hle, List.replicate_succ',
        ← List.append_assoc, ← List.rightpad, ih, hraw]
    · rw [List.rdropWhile_concat_neg _ _ _ (by simpa using hraw)]
      simp [List.rightpad]

variable {ev : SyscallEvent} {mem : MemoryReader}

theorem decodeRaw_raws (ev : SyscallEvent) :
    (decodeRaw ev).map DecodedArg.raw = ev.args.toList.rdropWhile (· = 0) := by
  simp [decodeRaw, Function.comp_def]

theorem decodeRaw_padded (ev : SyscallEvent) : (decodeRaw ev).length ≤ 6 ∧
    ((decodeRaw ev).map DecodedArg.raw).rightpad 6 0 = ev.args.toList := by
  have hlen : ev.args.toList.length = 6 := ev.args.length_toList
  have hpad := rdropWhile_padded ev.args.toList
  have hle := (List.rdropWhile_prefix (· = 0) ev.args.toList).length_le
  rw [hlen] at hpad hle
  rw [← List.length_map DecodedArg.raw, decodeRaw_raws]
  exact ⟨hle, hpad⟩

theorem decodeTyped_fields (syscall : String) (info : SyscallInfo) (k : ℕ) :
    (decodeTyped syscall info ev mem)[k]?.map (fun a : DecodedArg => (a.name, a.raw)) =
      info.args[k]?.map fun arg : ArgInfo => (some arg.name, ev.args[k]!) := by
  by_cases hk : k < info.args.length
  · have hsix : k < 6 := hk.trans_le info.sixAtMost
    have hraw : rawOf info ⟨k, hk⟩ ev = ev.args[k]! := by
      rw [getElem!_pos ev.args k hsix]
      rfl
    simp [decodeTyped, hk, hraw]
  · simp [decodeTyped, hk]

theorem arity_of_none (h : declared ev = none) (mem : MemoryReader) : Arity ev mem := by
  have hargs : (decode SYSCALLS ev mem).args = decodeRaw ev := by
    cases hinfo : ev.info SYSCALLS with
    | none => simp [decode, hinfo]
    | some info =>
      rw [declared, hinfo, Option.bind_some] at h
      simp [decode, hinfo, row_argsOf hinfo, Gen.argsOf, h]
  rw [Arity, h]
  simp only [hargs]
  exact decodeRaw_padded ev

theorem declared_row {m : Gen.SyscallMeta} (h : declared ev = some m) :
    ∃ info, ev.info SYSCALLS = some info ∧ info.args = m.args := by
  obtain ⟨info, hinfo, hm⟩ := Option.bind_eq_some_iff.mp h
  exact ⟨info, hinfo, by rw [row_argsOf hinfo, Gen.argsOf, hm]⟩

theorem arity_of_args {m : Gen.SyscallMeta} (h : declared ev = some m) (hne : m.args ≠ [])
    (mem : MemoryReader) : Arity ev mem := by
  obtain ⟨info, hinfo, hsame⟩ := declared_row h
  have hargs : (decode SYSCALLS ev mem).args = decodeTyped info.name info ev mem := by
    simp [decode, hinfo, hsame, hne]
  rw [Arity, h]
  simp only [hargs, ← hsame]
  exact ⟨info.sixAtMost, decodeTyped_fields info.name info⟩

/-- A call without arguments is decoded as an unknown one is. -/
theorem arity_of_nil {m : Gen.SyscallMeta} (h : declared ev = some m) (hnil : m.args = [])
    (mem : MemoryReader) : Arity ev mem ↔ ∀ raw ∈ ev.args.toList, raw = 0 := by
  obtain ⟨info, hinfo, hsame⟩ := declared_row h
  have hargs : (decode SYSCALLS ev mem).args = decodeRaw ev := by
    simp [decode, hinfo, hsame, hnil]
  have hzero : decodeRaw ev = [] ↔ ∀ raw ∈ ev.args.toList, raw = 0 := by
    simp [decodeRaw, List.rdropWhile_eq_nil_iff]
  rw [Arity, h]
  simp only [hargs, hnil, ← hzero]
  constructor
  · rintro ⟨-, hall⟩
    simpa using hall 0
  · intro hempty
    simp [hempty]

/-- The decoded arguments are those declared, exactly if the call is not one that is declared to
take none and has left something in a register. -/
theorem arity_iff (ev : SyscallEvent) (mem : MemoryReader) : Arity ev mem ↔ NoLeftovers ev := by
  unfold NoLeftovers
  cases h : declared ev with
  | none => exact iff_of_true (arity_of_none h mem) (by simp)
  | some m =>
    simp only [Option.some_inj, forall_eq']
    by_cases hnil : m.args = []
    · rw [arity_of_nil h hnil, forall_prop_of_true hnil]
    · exact iff_of_true (arity_of_args h hnil mem) fun hargs => absurd hargs hnil

/-- A `getpid` with a one left in the first register. -/
def getpidEvent : SyscallEvent := ⟨7, 7, 39, #v[1, 0, 0, 0, 0, 0], 7, 0, 0⟩

/-- A register that happens to be in use is shown as an argument. -/
theorem leftover_shown : ¬ ∀ ev mem, Arity ev mem := by
  intro h
  have hinfo : getpidEvent.info SYSCALLS = some (Gen.row (39, "getpid")) :=
    info_row 39 rfl (by decide +kernel)
  have hdeclared : declared getpidEvent = some (Gen.syscallMeta "getpid" []) := by
    rw [declared, hinfo]
    rfl
  have hzero := (arity_of_nil hdeclared rfl fun _ _ => none).mp (h _ _)
  exact absurd (hzero 1 (by decide)) (by decide)

end Syren
