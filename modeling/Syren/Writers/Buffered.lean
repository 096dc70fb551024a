import Mathlib.Algebra.BigOperators.Group.List.Basic
import Mathlib.Algebra.GroupWithZero.Nat
import Mathlib.Data.List.TakeDrop
import Syren.Writers.Writer

/-! A buffer in front of a writer that takes a number of bytes and then refuses. What the buffer
still holds at the end is written when it is dropped, where a refusal is ignored. -/
namespace Writers

/-- What the writer behind has taken, and what is in the buffer. -/
structure Buffered where
  taken : List UInt8
  buf : List UInt8
  deriving DecidableEq

namespace Buffered

variable {ε : Type} (capacity limit : ℕ) (refusal : ε)

def empty : Buffered := ⟨[], []⟩

/-- `flush_buf`: what is refused stays in the buffer. -/
def flushBuf : Io ε Buffered Unit := fun s =>
  if s.taken.length + s.buf.length ≤ limit then (.ok (), ⟨s.taken ++ s.buf, []⟩)
  else
    let room := limit - s.taken.length
    (.error refusal, ⟨s.taken ++ s.buf.take room, s.buf.drop room⟩)

/-- A write to the writer behind. -/
def writeDirect (piece : List UInt8) : Io ε Buffered Unit := fun s =>
  let result := outcome (writeAll limit refusal piece) s.taken
  (result.1, { s with taken := result.2 })

/-- `write_all`: a piece that does not fit empties the buffer, and one as large as the buffer is not
kept in it. -/
def write (piece : List UInt8) : Io ε Buffered Unit := do
  let s ← get
  if piece.length < capacity - s.buf.length then set { s with buf := s.buf ++ piece }
  else
    (if piece.length > capacity - s.buf.length then flushBuf limit refusal else return ())
    if piece.length ≥ capacity then writeDirect limit refusal piece
    else modify fun s => { s with buf := s.buf ++ piece }

/-- The writer is dropped: the buffer is written, and an error ignored. -/
def drop (s : Buffered) : Buffered := (outcome (flushBuf limit refusal) s).2

/-- How many bytes the buffer holds after a piece of some length. -/
def holdStep (held len : ℕ) : ℕ :=
  if len < capacity - held then held + len
  else if len ≥ capacity then 0
  else if len > capacity - held then len
  else held + len

/-- How many bytes the buffer holds after pieces of some lengths. -/
def held (lens : List ℕ) : ℕ := lens.foldl (holdStep capacity) 0

variable {capacity limit refusal} {s : Buffered} {piece : List UInt8}

theorem flushBuf_fits (h : s.taken.length + s.buf.length ≤ limit) :
    outcome (flushBuf limit refusal) s = (.ok (), ⟨s.taken ++ s.buf, []⟩) := if_pos h

theorem flushBuf_refused (h : limit < s.taken.length + s.buf.length) :
    outcome (flushBuf limit refusal) s = (.error refusal,
      ⟨s.taken ++ s.buf.take (limit - s.taken.length), s.buf.drop (limit - s.taken.length)⟩) :=
  if_neg (Nat.not_le.mpr h)

theorem writeDirect_fits (h : s.taken.length + piece.length ≤ limit) :
    outcome (writeDirect limit refusal piece) s = (.ok (), ⟨s.taken ++ piece, s.buf⟩) := by
  have hdirect : outcome (writeDirect limit refusal piece) s =
    ((outcome (writeAll limit refusal piece) s.taken).1,
      ⟨(outcome (writeAll limit refusal piece) s.taken).2, s.buf⟩) := rfl
  rw [hdirect, writeAll_fits h]

theorem writeDirect_refused (h : limit < s.taken.length + piece.length) :
    (outcome (writeDirect limit refusal piece) s).1 = .error refusal := by
  have hdirect : (outcome (writeDirect limit refusal piece) s).1 =
    (outcome (writeAll limit refusal piece) s.taken).1 := rfl
  rw [hdirect, writeAll_refused h]

theorem writeDirect_stuck (refusal : ε) (h : limit < s.taken.length + piece.length) :
    outcome (writeDirect limit refusal piece) s =
      (.error refusal, ⟨s.taken ++ piece.take (limit - s.taken.length), s.buf⟩) := by
  have hrefused : outcome (writeAll limit refusal piece) s.taken =
      (.error refusal, s.taken ++ piece.take (limit - s.taken.length)) :=
    if_neg (Nat.not_le.mpr h)
  have hdirect : outcome (writeDirect limit refusal piece) s =
    ((outcome (writeAll limit refusal piece) s.taken).1,
      ⟨(outcome (writeAll limit refusal piece) s.taken).2, s.buf⟩) := rfl
  rw [hdirect, hrefused]

theorem write_kept (h : piece.length < capacity - s.buf.length) :
    outcome (write capacity limit refusal piece) s = (.ok (), ⟨s.taken, s.buf ++ piece⟩) := by
  have hget : outcome (get : Io ε Buffered Buffered) s = (.ok s, s) := rfl
  rw [write, outcome_bind_ok hget, if_pos h]
  rfl

theorem write_full (h : ¬ piece.length < capacity - s.buf.length) :
    outcome (write capacity limit refusal piece) s = outcome
      ((if piece.length > capacity - s.buf.length then flushBuf limit refusal else pure ()) >>=
        fun _ => if piece.length ≥ capacity then writeDirect limit refusal piece
          else modify fun s => { s with buf := s.buf ++ piece }) s := by
  have hget : outcome (get : Io ε Buffered Buffered) s = (.ok s, s) := rfl
  rw [write, outcome_bind_ok hget, if_neg h]

theorem outcome_modify (f : Buffered → Buffered) :
    outcome (modify f : Io ε Buffered Unit) s = (.ok (), f s) := rfl

/-- A piece is kept in the buffer, or the buffer is flushed first and the piece then kept in it or
written past it. -/
theorem write_cases (refusal : ε) (piece : List UInt8) (hcap : s.buf.length ≤ capacity)
    (hlimit : s.taken.length ≤ limit) :
    (outcome (write capacity limit refusal piece) s = (.ok (), ⟨s.taken, s.buf ++ piece⟩) ∧
      holdStep capacity s.buf.length piece.length = s.buf.length + piece.length) ∨
    (outcome (write capacity limit refusal piece) s = outcome (flushBuf limit refusal >>= fun _ =>
        modify fun s => { s with buf := s.buf ++ piece }) s ∧
      holdStep capacity s.buf.length piece.length = piece.length) ∨
    (outcome (write capacity limit refusal piece) s = outcome (flushBuf limit refusal >>= fun _ =>
        writeDirect limit refusal piece) s ∧
      holdStep capacity s.buf.length piece.length = 0) := by
  by_cases hkept : piece.length < capacity - s.buf.length
  · exact .inl ⟨write_kept hkept, if_pos hkept⟩
  rw [write_full hkept]
  unfold holdStep
  by_cases hlarge : piece.length ≥ capacity
  · refine .inr (.inr ⟨?_, by simp [hkept, hlarge]⟩)
    simp only [if_pos hlarge]
    by_cases hspare : piece.length > capacity - s.buf.length
    · rw [if_pos hspare]
    · -- nothing is in the buffer, and the flush that is left out would do nothing
      have hempty : s.buf = [] := List.length_eq_zero_iff.mp (by omega)
      have hflush : outcome (flushBuf limit refusal) s = (.ok (), s) := by
        rw [flushBuf_fits (by simpa [hempty] using hlimit), hempty, List.append_nil, ← hempty]
      rw [if_neg hspare, outcome_bind_ok (outcome_pure () s), outcome_bind_ok hflush]
  · simp only [if_neg hlarge]
    by_cases hspare : piece.length > capacity - s.buf.length
    · exact .inr (.inl ⟨by rw [if_pos hspare], by simp [hkept, hspare]⟩)
    · refine .inl ⟨?_, by simp [hkept, hspare]⟩
      rw [if_neg hspare, outcome_bind_ok (outcome_pure () s), outcome_modify]

theorem holdStep_le (capacity held len : ℕ) :
    holdStep capacity held len ≤ held + len ∧
      (held ≤ capacity → holdStep capacity held len ≤ capacity) := by
  unfold holdStep
  split_ifs <;> omega

/-- The buffer and what is behind it hold all that was written, if the writer takes its part. -/
theorem write_taken (refusal : ε) (hcap : s.buf.length ≤ capacity)
    (h : s.taken.length + s.buf.length + piece.length -
      holdStep capacity s.buf.length piece.length ≤ limit) :
    ∃ s', outcome (write capacity limit refusal piece) s = (.ok (), s') ∧
      s'.taken ++ s'.buf = s.taken ++ s.buf ++ piece ∧
      s'.buf.length = holdStep capacity s.buf.length piece.length := by
  have hle := (holdStep_le capacity s.buf.length piece.length).1
  obtain ⟨hout, hhold⟩ | ⟨hout, hhold⟩ | ⟨hout, hhold⟩ :=
    write_cases refusal piece hcap (show s.taken.length ≤ limit by omega)
  · exact ⟨_, hout, by simp, by simp [hhold]⟩
  · refine ⟨⟨s.taken ++ s.buf, piece⟩, ?_, rfl, hhold.symm⟩
    rw [hout, outcome_bind_ok (flushBuf_fits (by omega)), outcome_modify]
    rfl
  · refine ⟨⟨s.taken ++ s.buf ++ piece, []⟩, ?_, by simp, hhold.symm⟩
    rw [hout, outcome_bind_ok (flushBuf_fits (by omega))]
    apply writeDirect_fits
    simpa [hhold] using h

theorem write_refused (hcap : s.buf.length ≤ capacity) (hlimit : s.taken.length ≤ limit)
    (h : limit < s.taken.length + s.buf.length + piece.length -
      holdStep capacity s.buf.length piece.length) :
    (outcome (write capacity limit refusal piece) s).1 = .error refusal := by
  obtain ⟨-, hhold⟩ | ⟨hout, hhold⟩ | ⟨hout, hhold⟩ :=
    write_cases refusal piece hcap hlimit
  · omega
  · rw [hout, outcome_bind_error (flushBuf_refused (by omega))]
  · rw [hout]
    by_cases hflush : s.taken.length + s.buf.length ≤ limit
    · rw [outcome_bind_ok (flushBuf_fits hflush)]
      apply writeDirect_refused
      simpa [hhold] using h
    · rw [outcome_bind_error (flushBuf_refused (Nat.lt_of_not_le hflush))]

theorem foldl_holdStep_le (capacity : ℕ) (lens : List ℕ) (n : ℕ) :
    lens.foldl (holdStep capacity) n ≤ n + lens.sum := by
  induction lens generalizing n with
  | nil => simp
  | cons len lens ih =>
    have hstep := (holdStep_le capacity n len).1
    have hrest := ih (holdStep capacity n len)
    rw [List.foldl_cons, List.sum_cons]
    omega

/-- What is shorter than the buffer stays in it. -/
theorem held_short {lens : List ℕ} (h : lens.sum < capacity) : held capacity lens = lens.sum := by
  suffices hall : ∀ n, n + lens.sum < capacity → lens.foldl (holdStep capacity) n = n + lens.sum by
    simpa [held] using hall 0 (by omega)
  clear h
  induction lens with
  | nil => simp
  | cons len lens ih =>
    intro n hn
    rw [List.sum_cons] at hn
    have hstep : holdStep capacity n len = n + len := if_pos (by omega)
    rw [List.foldl_cons, hstep, ih _ (by omega), List.sum_cons]
    omega

section Writes

variable {ws : List (List UInt8 × (ε → ε))}

/-- The lengths of some writes. -/
def lengths (ws : List (List UInt8 × (ε → ε))) : List ℕ := ws.map fun w => w.1.length

theorem sum_lengths (ws : List (List UInt8 × (ε → ε))) :
    (lengths ws).sum = (ws.flatMap Prod.fst).length := by
  simp [lengths, List.length_flatMap]

/-- The writes succeed if all that does not stay in the buffer is taken. -/
theorem perform_taken (refusal : ε) (hcap : s.buf.length ≤ capacity)
    (h : s.taken.length + s.buf.length + (lengths ws).sum -
      (lengths ws).foldl (holdStep capacity) s.buf.length ≤ limit) :
    ∃ s', outcome (perform (write capacity limit refusal) ws) s = (.ok (), s') ∧
      s'.taken ++ s'.buf = s.taken ++ s.buf ++ ws.flatMap Prod.fst ∧
      s'.buf.length = (lengths ws).foldl (holdStep capacity) s.buf.length := by
  induction ws generalizing s with
  | nil => exact ⟨s, rfl, by simp, rfl⟩
  | cons w ws ih =>
    simp only [lengths, List.map_cons, List.sum_cons, List.foldl_cons] at h ih ⊢
    have hstep := holdStep_le capacity s.buf.length w.1.length
    have hrest := foldl_holdStep_le capacity (ws.map fun w => w.1.length)
      (holdStep capacity s.buf.length w.1.length)
    have hfirst : s.taken.length + s.buf.length + w.1.length -
        holdStep capacity s.buf.length w.1.length ≤ limit := by omega
    obtain ⟨s', hout, hall, hheld⟩ := write_taken refusal hcap hfirst
    have hlen := congrArg List.length hall
    simp only [List.length_append] at hlen
    rw [perform_cons_ok hout, List.flatMap_cons, ← List.append_assoc, ← hall, ← hheld]
    apply ih
    · rw [hheld]
      exact hstep.2 hcap
    · rw [hheld]
      omega

/-- They fail if the writer refuses a byte of what does not stay in the buffer. -/
theorem perform_failed (hcap : s.buf.length ≤ capacity) (hlimit : s.taken.length ≤ limit)
    (h : limit < s.taken.length + s.buf.length + (lengths ws).sum -
      (lengths ws).foldl (holdStep capacity) s.buf.length) :
    ∃ e, (outcome (perform (write capacity limit refusal) ws) s).1 = .error e := by
  induction ws generalizing s with
  | nil =>
    simp only [lengths, List.map_nil, List.sum_nil, List.foldl_nil] at h
    omega
  | cons w ws ih =>
    simp only [lengths, List.map_cons, List.sum_cons, List.foldl_cons] at h ih ⊢
    have hstep := holdStep_le capacity s.buf.length w.1.length
    by_cases htaken : s.taken.length + s.buf.length + w.1.length -
        holdStep capacity s.buf.length w.1.length ≤ limit
    · obtain ⟨s', hout, hall, hheld⟩ := write_taken refusal hcap htaken
      have hlen := congrArg List.length hall
      simp only [List.length_append] at hlen
      rw [perform_cons_ok hout]
      apply ih
      · rw [hheld]
        exact hstep.2 hcap
      · omega
      · rw [hheld]
        omega
    · exact ⟨w.2 refusal,
        perform_cons_error (write_refused hcap hlimit (Nat.lt_of_not_le htaken))⟩

theorem written_ok (refusal : ε) (h : (ws.flatMap Prod.fst).length -
    held capacity (lengths ws) ≤ limit) :
    ∃ s, outcome (perform (write capacity limit refusal) ws) empty = (.ok (), s) ∧
      s.taken ++ s.buf = ws.flatMap Prod.fst ∧ s.taken.length ≤ limit := by
  rw [← sum_lengths] at h
  have hzero : empty.buf.length ≤ capacity := Nat.zero_le capacity
  obtain ⟨s, hout, hall, hheld⟩ := perform_taken refusal hzero (by simpa [empty, held] using h)
  have hlen := congrArg List.length hall
  simp only [empty, List.length_append, List.length_nil, Nat.zero_add, ← sum_lengths] at hlen hheld
  refine ⟨s, hout, by simpa [empty] using hall, ?_⟩
  rw [← hlen] at h
  unfold held at h
  omega

theorem written_error (refusal : ε) (h : limit < (ws.flatMap Prod.fst).length -
    held capacity (lengths ws)) :
    ∃ e, (outcome (perform (write capacity limit refusal) ws) empty).1 = .error e := by
  rw [← sum_lengths] at h
  apply perform_failed (Nat.zero_le capacity) (Nat.zero_le limit)
  simpa [empty, held] using h

end Writes

/-- What is behind a dropped buffer is what was written, as far as it was taken. -/
theorem drop_taken (h : s.taken.length ≤ limit) :
    (drop limit refusal s).taken = (s.taken ++ s.buf).take limit := by
  by_cases hfits : s.taken.length + s.buf.length ≤ limit
  · rw [drop, flushBuf_fits hfits, List.take_of_length_le (by simpa using hfits)]
  · rw [drop, flushBuf_refused (Nat.lt_of_not_le hfits), List.take_append,
      List.take_of_length_le h]

/-- What is behind the buffer and in it begins what was written, and is no more than was taken;
after a write that succeeded it is all that was written. -/
structure Prefixed (capacity limit : ℕ) (whole : List UInt8) (result : Except ε Unit)
    (s : Buffered) : Prop where
  begins : s.taken ++ s.buf <+: whole
  taken : s.taken.length ≤ limit
  all : result = .ok () → s.taken ++ s.buf = whole ∧ s.buf.length ≤ capacity

theorem flushBuf_prefixed (refusal : ε) (hlimit : s.taken.length ≤ limit)
    (h : limit < s.taken.length + s.buf.length) :
    ∃ s', outcome (flushBuf limit refusal) s = (.error refusal, s') ∧
      s'.taken ++ s'.buf = s.taken ++ s.buf ∧ s'.taken.length ≤ limit := by
  refine ⟨_, flushBuf_refused h, ?_, ?_⟩
  · simp [List.append_assoc]
  · simp only [List.length_append, List.length_take]
    omega

theorem write_prefixed (refusal : ε) (piece : List UInt8) (hcap : s.buf.length ≤ capacity)
    (hlimit : s.taken.length ≤ limit) :
    Prefixed capacity limit (s.taken ++ s.buf ++ piece)
      (outcome (write capacity limit refusal piece) s).1
      (outcome (write capacity limit refusal piece) s).2 := by
  have hhold := (holdStep_le capacity s.buf.length piece.length).2 hcap
  obtain ⟨hout, hheld⟩ | ⟨hout, hheld⟩ | ⟨hout, -⟩ := write_cases refusal piece hcap hlimit
  · rw [hheld] at hhold
    rw [hout]
    exact ⟨by simp, hlimit, fun _ => ⟨by simp, by simpa using hhold⟩⟩
  · rw [hheld] at hhold
    by_cases hflush : s.taken.length + s.buf.length ≤ limit
    · rw [hout, outcome_bind_ok (flushBuf_fits hflush), outcome_modify]
      exact ⟨by simp, by simpa using hflush, fun _ => ⟨by simp, by simpa using hhold⟩⟩
    · obtain ⟨s', hstuck, hsame, htaken⟩ :=
        flushBuf_prefixed refusal hlimit (Nat.lt_of_not_le hflush)
      rw [hout, outcome_bind_error hstuck]
      exact ⟨hsame ▸ List.prefix_append _ _, htaken, fun hok => by cases hok⟩
  · by_cases hflush : s.taken.length + s.buf.length ≤ limit
    · rw [hout, outcome_bind_ok (flushBuf_fits hflush)]
      by_cases hdirect : s.taken.length + s.buf.length + piece.length ≤ limit
      · rw [writeDirect_fits (by simpa using hdirect)]
        exact ⟨by simp, by simpa [Nat.add_assoc] using hdirect, fun _ => by simp⟩
      · have hstuck := writeDirect_stuck (s := ⟨s.taken ++ s.buf, []⟩) refusal
          (show limit < (s.taken ++ s.buf).length + piece.length by
            rw [List.length_append]
            omega)
        rw [hstuck]
        refine ⟨?_, ?_, fun hok => by cases hok⟩
        · simpa using List.take_prefix _ _
        · simp only [List.length_append, List.length_take]
          omega
    · obtain ⟨s', hstuck, hsame, htaken⟩ :=
        flushBuf_prefixed refusal hlimit (Nat.lt_of_not_le hflush)
      rw [hout, outcome_bind_error hstuck]
      exact ⟨hsame ▸ List.prefix_append _ _, htaken, fun hok => by cases hok⟩

theorem perform_prefixed (refusal : ε) (ws : List (List UInt8 × (ε → ε)))
    (hcap : s.buf.length ≤ capacity) (hlimit : s.taken.length ≤ limit) :
    Prefixed capacity limit (s.taken ++ s.buf ++ ws.flatMap Prod.fst)
      (outcome (perform (write capacity limit refusal) ws) s).1
      (outcome (perform (write capacity limit refusal) ws) s).2 := by
  induction ws generalizing s with
  | nil => exact ⟨by simp, hlimit, fun _ => ⟨by simp, hcap⟩⟩
  | cons w ws ih =>
    have hfirst := write_prefixed refusal w.1 hcap hlimit
    rw [List.flatMap_cons, ← List.append_assoc]
    cases hout : outcome (write capacity limit refusal w.1) s with
    | mk result s' =>
      rw [hout] at hfirst
      cases result with
      | error e =>
        rw [perform_cons_stuck hout]
        exact ⟨hfirst.begins.trans (List.prefix_append _ _), hfirst.taken, fun hok => by cases hok⟩
      | ok u =>
        obtain ⟨hall, hkept⟩ := hfirst.all rfl
        rw [perform_cons_ok hout, ← hall]
        exact ih hkept hfirst.taken

/-- Writes that succeed are all behind the dropped buffer, if and only if all of them are taken or
the refusal comes before what the buffer holds at the end. -/
theorem whole_iff (refusal : ε) (ws : List (List UInt8 × (ε → ε))) :
    ((outcome (perform (write capacity limit refusal) ws) empty).1 = .ok () →
      (drop limit refusal (outcome (perform (write capacity limit refusal) ws) empty).2).taken =
        ws.flatMap Prod.fst) ↔
      (ws.flatMap Prod.fst).length ≤ limit ∨
        limit < (ws.flatMap Prod.fst).length - held capacity (lengths ws) := by
  by_cases h : (ws.flatMap Prod.fst).length - held capacity (lengths ws) ≤ limit
  · obtain ⟨s, hout, hall, hlimit⟩ := written_ok refusal h
    rw [hout]
    dsimp only
    rw [drop_taken hlimit, hall, List.take_eq_self_iff, or_iff_left (Nat.not_lt.mpr h)]
    simp
  · obtain ⟨e, he⟩ := written_error refusal (Nat.lt_of_not_le h)
    rw [he]
    exact iff_of_true (fun hok => by cases hok) (Or.inr (Nat.lt_of_not_le h))

end Buffered

/-- A writer, and what has come through it once it is dropped: everything that was written, where no
write has failed and the drop leaves nothing behind. -/
structure Outlet (ε ω : Type) where
  write : List UInt8 → Io ε ω Unit
  start : ω
  through : ω → List UInt8
  Clean : ω → Prop
  whole : ∀ (ws : List (List UInt8 × (ε → ε))) (s : ω),
    outcome (perform write ws) start = (.ok (), s) → Clean s → through s = ws.flatMap Prod.fst

namespace Outlet

variable {ε ω : Type}

/-- A writer that takes a number of bytes, written to at once. -/
def direct (limit : ℕ) (refusal : ε) : Outlet ε (List UInt8) where
  write := writeAll limit refusal
  start := []
  through := id
  Clean := fun _ => True
  whole := fun _ _ h _ => perform_ok h

/-- The same behind a buffer, of which the last part is written when it is dropped. -/
def behind (capacity limit : ℕ) (refusal : ε) : Outlet ε Buffered where
  write := Buffered.write capacity limit refusal
  start := Buffered.empty
  through := fun s => (s.drop limit refusal).taken
  Clean := fun s => (outcome (Buffered.flushBuf limit refusal) s).1 = .ok ()
  whole := fun ws s h hclean => by
    have hprefixed := Buffered.perform_prefixed (s := Buffered.empty) refusal ws
      (Nat.zero_le capacity) (Nat.zero_le limit)
    rw [h] at hprefixed
    have hfits : s.taken.length + s.buf.length ≤ limit := by
      by_contra hlarge
      rw [Buffered.flushBuf_refused (Nat.lt_of_not_le hlarge)] at hclean
      cases hclean
    rw [Buffered.drop_taken hprefixed.taken, (hprefixed.all rfl).1, List.take_of_length_le]
    · rfl
    · rw [← (hprefixed.all rfl).1, List.length_append]
      exact hfits

/-- With enough room an outlet takes everything. -/
def Roomy (outlet : ℕ → Outlet ε ω) : Prop :=
  ∀ ws : List (List UInt8 × (ε → ε)), ∃ limit s,
    outcome (perform (outlet limit).write ws) (outlet limit).start = (.ok (), s) ∧
      (outlet limit).Clean s

theorem roomy_direct (refusal : ε) : Roomy fun limit => direct limit refusal :=
  fun ws => ⟨(ws.flatMap Prod.fst).length, _, perform_fits (by simp [direct]), trivial⟩

theorem roomy_behind (capacity : ℕ) (refusal : ε) :
    Roomy fun limit => behind capacity limit refusal := by
  intro ws
  have hfits : (ws.flatMap Prod.fst).length - Buffered.held capacity (Buffered.lengths ws) ≤
      (ws.flatMap Prod.fst).length := Nat.sub_le _ _
  obtain ⟨s, hout, hall, -⟩ := Buffered.written_ok refusal hfits
  have hlen : s.taken.length + s.buf.length = (ws.flatMap Prod.fst).length := by
    rw [← hall, List.length_append]
  exact ⟨_, s, hout, congrArg Prod.fst (Buffered.flushBuf_fits (Nat.le_of_eq hlen))⟩

end Outlet

end Writers
