import Syren.Decode.Reading
import Syren.Trace.Captured

/-! The reads of a string, one by one, and what comes of them however the reader splits its
answers. -/
namespace Syren.Render
open Interaction

/-- A call of `MemoryReader::read`. -/
structure Read where
  addr : UInt64
  len : ℕ

/-- Code that reads memory. Each read is answered anew. -/
abbrev Reading (α : Type) := Program Read (fun _ => Option (List UInt8)) α

/-- The loop of `read_cstr`, over a reader that may answer otherwise from call to call. -/
def readCstrCalls (cap : ℕ) (cursor : UInt64) (out : List UInt8) :
    Reading (Option (List UInt8)) :=
  if _hlt : out.length < cap then
    .call ⟨cursor, min 256 (cap - out.length)⟩ fun
      | none => .done (if out = [] then none else some out)
      | some chunk =>
        if _hne : chunk = [] then .done (if out = [] then none else some out)
        else if 0 ∈ chunk then .done (some (out ++ chunk.takeWhile (· ≠ 0)))
        else readCstrCalls cap (cursor + UInt64.ofNat chunk.length) (out ++ chunk)
  else .done (some out)
  termination_by cap - out.length
  decreasing_by
    have hpos := List.length_pos_iff.mpr _hne
    rw [List.length_append]
    omega

def readCstrFrom (addr : UInt64) (cap : ℕ) : Reading (Option (List UInt8)) :=
  if addr = 0 then .done none else readCstrCalls cap addr []

/-- A reader with a state of its own, as an environment. -/
def answering {σ : Type} (reader : σ → Read → Option (List UInt8) × σ) :
    Environment Read (fun _ => Option (List UInt8)) σ := fun s c r s' => reader s c = (r, s')

variable {σ : Type} {reader : σ → Read → Option (List UInt8) × σ} {cap : ℕ} {cursor addr : UInt64}
  {out : List UInt8}

/-- The code runs against a reader: the result and the reader's state after it. -/
def Reading.against {α : Type} (p : Reading α) (reader : σ → Read → Option (List UInt8) × σ)
    (s : σ) : Option (α × σ) := p.play (fun s c => some (reader s c)) s

theorem calls_full (hfull : cap ≤ out.length) :
    readCstrCalls cap cursor out = .done (some out) := by
  rw [readCstrCalls, dif_neg (not_lt.mpr hfull)]

theorem calls_stop (hlt : out.length < cap) {r : Option (List UInt8)} {s s' : σ}
    (hread : reader s ⟨cursor, min 256 (cap - out.length)⟩ = (r, s')) (hr : r.getD [] = []) :
    (readCstrCalls cap cursor out).against reader s =
      some (if out = [] then none else some out, s') := by
  rw [readCstrCalls, dif_pos hlt, Reading.against, Program.play, hread, Option.bind_some]
  cases r with
  | none => rfl
  | some chunk =>
    simp only [Option.getD_some] at hr
    simp [hr, Program.play]

theorem calls_zero (hlt : out.length < cap) {chunk : List UInt8} (hzero : 0 ∈ chunk)
    {s s' : σ} (hread : reader s ⟨cursor, min 256 (cap - out.length)⟩ = (some chunk, s')) :
    (readCstrCalls cap cursor out).against reader s =
      some (some (out ++ chunk.takeWhile (· ≠ 0)), s') := by
  rw [readCstrCalls, dif_pos hlt, Reading.against, Program.play, hread, Option.bind_some]
  simp only [dif_neg (List.ne_nil_of_mem hzero), if_pos hzero, Program.play]

theorem calls_more (hlt : out.length < cap) {chunk : List UInt8} (hne : chunk ≠ [])
    (hzero : 0 ∉ chunk) {s s' : σ}
    (hread : reader s ⟨cursor, min 256 (cap - out.length)⟩ = (some chunk, s')) :
    (readCstrCalls cap cursor out).against reader s =
      (readCstrCalls cap (cursor + UInt64.ofNat chunk.length) (out ++ chunk)).against
        reader s' := by
  rw [readCstrCalls, dif_pos hlt, Reading.against, Program.play, hread, Option.bind_some]
  simp only [dif_neg hne, if_neg hzero, Reading.against]

/-- With a reader that always answers in the same way, the result is that of `read_cstr`. -/
theorem readCstrFrom_eq (mem : MemoryReader) (addr : UInt64) (cap : ℕ) :
    (readCstrFrom addr cap).against (fun s c => (mem c.addr c.len, s)) () =
      some (readCstr mem addr cap, ()) := by
  have hloop (cursor : UInt64) (out : List UInt8) :
      (readCstrCalls cap cursor out).against (fun s c => (mem c.addr c.len, s)) () =
        some (readCstrLoop mem cap cursor out, ()) := by
    fun_induction readCstrLoop mem cap cursor out with
    | case1 cursor hlt hread | case3 cursor hlt hread =>
      rw [calls_stop hlt (by rw [hread]) rfl, if_pos rfl]
    | case2 cursor out hlt hread hne | case4 cursor out hlt hne hread =>
      rw [calls_stop hlt (by rw [hread]) rfl, if_neg hne]
    | case5 cursor out hlt chunk hread hchunk hzero =>
      rw [calls_zero hlt hzero (by rw [hread])]
    | case6 cursor out hlt chunk hread hchunk hzero ih =>
      rw [calls_more hlt hchunk hzero (by rw [hread]), ih]
    | case7 cursor out hlt =>
      rw [calls_full (not_lt.mp hlt)]
      rfl
  unfold readCstrFrom readCstr
  split_ifs
  · rfl
  · exact hloop addr []

/-- An answer of a reader: nothing where nothing is mapped, and elsewhere some of the bytes that
were asked for, from the first on. -/
def Allowed (mem : Image) (c : Read) (r : Option (List UInt8)) : Prop :=
  if mem.byte c.addr.toNat = none then r.getD [] = []
  else ∃ chunk ≠ [], r = some chunk ∧ chunk <+: mem.mapped c.addr.toNat c.len

/-- What a string read is to be: the mapped bytes before the first zero, if there are any. -/
def cstring (mem : Image) (addr : UInt64) (cap : ℕ) : Option (List UInt8) :=
  let run := mem.mapped addr.toNat cap
  if addr = 0 ∨ run = [] then none else some (run.takeWhile (· ≠ 0))

/-- Between two reads: what has been read is the start of the run, and the cursor stands behind. -/
structure Midway (mem : Image) (addr : UInt64) (cap : ℕ) (cursor : UInt64) (out : List UInt8) :
    Prop where
  behind : cursor.toNat = addr.toNat + out.length
  start : mem.mapped addr.toNat out.length = out
  noZero : 0 ∉ out
  within : out.length ≤ cap

variable {mem : Image} {stop : ℕ}

theorem Midway.run (h : Midway mem addr cap cursor out) :
    mem.mapped addr.toNat cap = out ++ mem.mapped cursor.toNat (cap - out.length) := by
  have hsum : out.length + (cap - out.length) = cap := Nat.add_sub_of_le h.within
  have happend := mem.mapped_append (congrArg List.length h.start) (cap - out.length)
  rw [hsum, h.start, ← h.behind] at happend
  exact happend

theorem Midway.more (h : Midway mem addr cap cursor out) (hstop : stop < 2 ^ 64)
    (hend : ∀ a, stop ≤ a → mem.byte a = none) {chunk : List UInt8} {len : ℕ}
    (hlen : len ≤ cap - out.length) (hchunk : chunk <+: mem.mapped cursor.toNat len)
    (hne : chunk ≠ []) (hzero : 0 ∉ chunk) :
    Midway mem addr cap (cursor + UInt64.ofNat chunk.length) (out ++ chunk) := by
  have hpos := List.length_pos_iff.mpr hne
  have hshort := hchunk.length_le.trans (mem.length_mapped_le _ _)
  have hmapped := List.prefix_iff_eq_take.mp hchunk
  rw [mem.take_mapped, min_eq_left hshort, eq_comm] at hmapped
  have hlast : mem.byte (cursor.toNat + (chunk.length - 1)) ≠ none :=
    mem.length_mapped_eq_iff.mp (congrArg List.length hmapped) _ (by omega)
  have hbelow : cursor.toNat + (chunk.length - 1) < stop := by
    by_contra hle
    exact hlast (hend _ (not_lt.mp hle))
  have hwithin := h.within
  constructor
  · rw [UInt64.toNat_add, UInt64.toNat_ofNat', h.behind, List.length_append]
    have := h.behind
    omega
  · rw [List.length_append, mem.mapped_append (congrArg List.length h.start), h.start, ← h.behind,
      hmapped]
  · simp [h.noZero, hzero]
  · rw [List.length_append]
    omega

/-- Up to the next answer of a reader the run goes on as that answer says. -/
theorem prefix_mapped {n m addr : ℕ} (h : n ≤ m) : mem.mapped addr n <+: mem.mapped addr m := by
  rw [← min_eq_left h, ← mem.take_mapped]
  exact List.take_prefix _ _

/-- From between two reads on, the loop ends with the start of the run, cut before its first
zero. -/
theorem Midway.ends (hstop : stop < 2 ^ 64) (hend : ∀ a, stop ≤ a → mem.byte a = none)
    (hread : ∀ s c, 0 < c.len → Allowed mem c (reader s c).1)
    (h : Midway mem addr cap cursor out) (s : σ) :
    ∃ s', (readCstrCalls cap cursor out).against reader s =
      some (if mem.mapped addr.toNat cap = [] ∧ 0 < cap then none
        else some ((mem.mapped addr.toNat cap).takeWhile (· ≠ 0)), s') := by
  induction hn : cap - out.length using Nat.strongRecOn generalizing cursor out s with
  | ind n ih =>
    have hrun := h.run
    by_cases hlt : out.length < cap
    swap
    · have hfull : out.length = cap := le_antisymm h.within (not_lt.mp hlt)
      rw [hfull, Nat.sub_self, Image.mapped] at hrun
      have hsome : ¬ (out ++ [] = [] ∧ 0 < cap) := by
        rintro ⟨hnil, hpos⟩
        rw [← hfull] at hpos
        exact absurd hpos (by simp_all)
      rw [calls_full hfull.ge, hrun, if_neg hsome, takeWhile_noZero h.noZero, List.takeWhile_nil,
        List.append_nil]
      exact ⟨s, rfl⟩
    have hallowed := hread s ⟨cursor, min 256 (cap - out.length)⟩ (by simp; omega)
    cases hr : reader s ⟨cursor, min 256 (cap - out.length)⟩ with
    | mk r s₁ =>
      rw [hr, Allowed] at hallowed
      split_ifs at hallowed with hmap
      · rw [Image.mapped_none hmap] at hrun
        rw [calls_stop hlt hr hallowed, hrun, takeWhile_noZero h.noZero, List.takeWhile_nil,
          List.append_nil]
        refine ⟨s₁, ?_⟩
        simp [Nat.zero_lt_of_lt hlt]
      · obtain ⟨chunk, hne, rfl, hchunk⟩ := hallowed
        have hle : min 256 (cap - out.length) ≤ cap - out.length := min_le_right _ _
        obtain ⟨rest, hrest⟩ := hchunk.trans (prefix_mapped hle)
        rw [← hrest] at hrun
        by_cases hzero : 0 ∈ chunk
        · rw [calls_zero hlt hzero hr, hrun, takeWhile_noZero h.noZero, takeWhile_ofZero hzero]
          refine ⟨s₁, ?_⟩
          simp [hne]
        · rw [calls_more hlt hne hzero hr]
          have hpos := List.length_pos_iff.mpr hne
          exact ih _ (by rw [List.length_append]; omega)
            (h.more hstop hend hle hchunk hne hzero) s₁ rfl

/-- From between two reads on, the loop asks for nothing outside the bytes it may read. -/
theorem Midway.asks (hstop : stop < 2 ^ 64) (hend : ∀ a, stop ≤ a → mem.byte a = none)
    (hread : ∀ s c, 0 < c.len → Allowed mem c (reader s c).1)
    (h : Midway mem addr cap cursor out) {s s' : σ} {c : Read}
    (hmakes : (readCstrCalls cap cursor out).Makes (answering reader) s c s') :
    addr.toNat ≤ c.addr.toNat ∧ c.addr.toNat + c.len ≤ addr.toNat + cap := by
  induction hn : cap - out.length using Nat.strongRecOn generalizing cursor out s with
  | ind n ih =>
    have hbehind := h.behind
    by_cases hlt : out.length < cap
    · rw [readCstrCalls, dif_pos hlt] at hmakes
      obtain ⟨rfl, -⟩ | ⟨r, s₁, hr, hnext⟩ := hmakes
      · have hle : min 256 (cap - out.length) ≤ cap - out.length := min_le_right _ _
        simp only [hbehind]
        omega
      · have hallowed := hread s ⟨cursor, min 256 (cap - out.length)⟩ (by simp; omega)
        unfold answering at hr
        rw [hr, Allowed] at hallowed
        cases r with
        | none => exact hnext.elim
        | some chunk =>
          by_cases hne : chunk = []
          · simp [hne] at hnext
          by_cases hzero : 0 ∈ chunk
          · simp [hne, hzero] at hnext
          · simp only [hne, hzero, if_false, dite_false] at hnext
            split_ifs at hallowed with hmap
            · exact absurd hallowed hne
            · obtain ⟨_, -, heq, hchunk⟩ := hallowed
              cases heq
              have hpos := List.length_pos_iff.mpr hne
              exact ih _ (by rw [List.length_append]; omega)
                (h.more hstop hend (min_le_right _ _) hchunk hne hzero) hnext rfl
    · rw [calls_full (not_lt.mp hlt)] at hmakes
      exact hmakes.elim

/-- However a reader splits its answers, a string is read as the start of its run up to a zero, and
only bytes below the cap are asked for, exactly if there is no null pointer to spare the reading or
the cap is not zero. -/
theorem cstring_read_iff (hstop : stop < 2 ^ 64) (hend : ∀ a, stop ≤ a → mem.byte a = none)
    (hread : ∀ s c, 0 < c.len → Allowed mem c (reader s c).1) (addr : UInt64) (cap : ℕ) (s : σ) :
    ((∃ s', (readCstrFrom addr cap).against reader s = some (cstring mem addr cap, s')) ∧
      ∀ c s', (readCstrFrom addr cap).Makes (answering reader) s c s' →
        addr.toNat ≤ c.addr.toNat ∧ c.addr.toNat + c.len ≤ addr.toNat + cap) ↔
      (addr = 0 ∨ 0 < cap) := by
  by_cases hnull : addr = 0
  · simp only [readCstrFrom, cstring, hnull, if_true, true_or, iff_true]
    exact ⟨⟨s, rfl⟩, fun c s' hmakes => hmakes.elim⟩
  have hstart : Midway mem addr cap addr [] := ⟨by simp, rfl, by simp, Nat.zero_le _⟩
  simp only [readCstrFrom, cstring, hnull, if_false, false_or]
  obtain ⟨s₁, hends⟩ := hstart.ends hstop hend hread s
  rw [hends]
  constructor
  · rintro ⟨⟨s', hsame⟩, -⟩
    by_contra hcap
    have hzero : cap = 0 := by omega
    subst hzero
    simp [Image.mapped] at hsame
  · intro hcap
    refine ⟨⟨s₁, by simp [hcap]⟩, fun c s' => hstart.asks hstop hend hread⟩

/-- Two letters and a zero before an unmapped page. -/
def letterImage : Image where
  byte addr := if addr = 4093 ∨ addr = 4094 then some 97 else if addr = 4095 then some 0 else none
  top addr h := by rw [if_neg (by omega), if_neg (by omega)]

theorem letterImage_end (a : ℕ) (h : 4096 ≤ a) : letterImage.byte a = none := by
  simp only [letterImage]
  rw [if_neg (by omega), if_neg (by omega)]

/-- A reader that answers a single byte at every other call. -/
def haltingReader (n : ℕ) (c : Read) : Option (List UInt8) × ℕ :=
  (some (letterImage.mapped c.addr.toNat (if n % 2 = 0 then min 1 c.len else c.len)), n + 1)

theorem haltingReader_allowed (n : ℕ) (c : Read) (hlen : 0 < c.len) :
    Allowed letterImage c (haltingReader n c).1 := by
  unfold Allowed haltingReader
  split_ifs with hmap hturn hturn
  · exact Image.mapped_none hmap _
  · exact Image.mapped_none hmap _
  · refine ⟨_, ?_, rfl, prefix_mapped (min_le_right _ _)⟩
    rw [Ne, Image.mapped_eq_nil]
    simp only [hmap, or_false]
    omega
  · refine ⟨_, ?_, rfl, List.prefix_refl _⟩
    rw [Ne, Image.mapped_eq_nil]
    simp only [hmap, or_false]
    omega

theorem cstring_read_halting :
    ((∃ n, (readCstrFrom 4093 PATH_CAP).against haltingReader 0 =
        some (cstring letterImage 4093 PATH_CAP, n)) ∧
      ∀ c n, (readCstrFrom 4093 PATH_CAP).Makes (answering haltingReader) 0 c n →
        (4093 : UInt64).toNat ≤ c.addr.toNat ∧
          c.addr.toNat + c.len ≤ (4093 : UInt64).toNat + PATH_CAP) ↔
      ((4093 : UInt64) = 0 ∨ 0 < PATH_CAP) := by
  exact cstring_read_iff (by decide) letterImage_end haltingReader_allowed 4093 PATH_CAP 0

/-- With a cap of zero nothing is read, and yet there is a string. -/
theorem no_cap_still_reads : ¬ ∀ (mem : Image) (addr : UInt64) (cap : ℕ) (stop : ℕ),
    stop < 2 ^ 64 → (∀ a, stop ≤ a → mem.byte a = none) →
      readCstr mem.reader addr cap = cstring mem addr cap := by
  intro h
  have hsame := h letterImage 4093 0 4096 (by decide) letterImage_end
  rw [readCstr, if_neg (by decide), readCstrLoop, dif_neg (by decide)] at hsame
  simp [cstring, Image.mapped] at hsame

end Syren.Render
