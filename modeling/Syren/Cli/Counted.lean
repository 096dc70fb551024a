import Syren.Cli.Heard
import Syren.Output.SummaryTable

/-! What the summaries of a command say of the program that it runs, whichever backend traces it. -/
namespace Syren
open Output Output.SummarySink Writers Interaction Interaction.Attempt

/-- The calls and the errors that a table has for a name. -/
def Output.SummarySink.Table.counted (t : Table) (name : List Char) : ℕ × ℕ :=
  ((t.rows.find? (·.name = name)).map fun row => (row.calls, row.errors)).getD (0, 0)

/-- The call of a line has the name. -/
def Named (name : List Char) (line : Line) : Prop := syscallName SYSCALLS line.2.1 = name

instance (name : List Char) (line : Line) : Decidable (Named name line) :=
  inferInstanceAs (Decidable (_ = _))

/-- How many of some lines have the name, and how many of these failed. -/
def tallied (name : List Char) (ls : List Line) : ℕ × ℕ :=
  (ls.countP (Named name ·), ls.countP fun line => Named name line ∧ Fails line.2.2.2)

variable {name : List Char} {recs : List Output.Record} {ls ms : List Line}

theorem tallied_append : tallied name (ls ++ ms) = tallied name ls + tallied name ms := by
  simp [tallied, List.countP_append]

theorem tallied_other (h : ∀ line ∈ ls, ¬ Named name line) : tallied name ls = 0 := by
  refine Prod.ext (List.countP_eq_zero.mpr ?_) (List.countP_eq_zero.mpr ?_)
  · intro line hline
    simpa using h line hline
  · intro line hline
    simp [h line hline]

theorem tallied_le (h : ls.Sublist ms) : tallied name ls ≤ tallied name ms :=
  ⟨h.countP_le, h.countP_le⟩

theorem counted_eq {t : Table} (h : SummarySink.Tells recs t) (name : List Char) : t.counted name =
    ((callsOf recs name).length, (callsOf recs name).countP (·.error.isSome)) := by
  unfold Table.counted
  cases hrow : t.rows.find? (·.name = name) with
  | some row =>
    obtain rfl : row.name = name := by simpa using List.find?_some hrow
    obtain ⟨hcalls, herrors, -⟩ := h.counts row (List.mem_of_find?_eq_some hrow)
    exact Prod.ext hcalls herrors
  | none =>
    have hno : name ∉ t.rows.map Cells.name := by
      simpa using hrow
    have hnone : callsOf recs name = [] := by
      refine List.filter_eq_nil_iff.mpr fun s hs => ?_
      simpa using fun hname => hno ((h.complete name).mpr ⟨s, hs, hname⟩)
    rw [hnone]
    rfl

theorem countP_eq_of_forall₂ {α β : Type} {R : α → β → Prop} {p : α → Bool} {q : β → Bool}
    {l : List α} {m : List β} (h : List.Forall₂ R l m) (hpq : ∀ a b, R a b → p a = q b) :
    l.countP p = m.countP q := by
  induction h with
  | nil => rfl
  | cons hab _ ih => rw [List.countP_cons, List.countP_cons, ih, hpq _ _ hab]

/-- What is counted of decoded calls is what is counted of the lines that they tell of. -/
theorem tallied_eq (h : List.Forall₂ (TellsOf SYSCALLS) (Output.syscalls recs) ls)
    (name : List Char) :
    ((callsOf recs name).length, (callsOf recs name).countP (·.error.isSome)) =
      tallied name ls := by
  refine Prod.ext ?_ ?_
  · show (callsOf recs name).length = _
    rw [callsOf, ← List.countP_eq_length_filter]
    exact countP_eq_of_forall₂ h fun d line ht => by rw [ht.name]; rfl
  · show (callsOf recs name).countP (·.error.isSome) = _
    rw [callsOf, List.countP_filter]
    refine countP_eq_of_forall₂ h fun d line ht => ?_
    rw [Bool.eq_iff_iff, Bool.and_eq_true, decide_eq_true_eq, decide_eq_true_eq, ht.name, ht.error]
    exact and_comm

/-- The summary of a command that succeeds counts, name by name, the syscalls that the tracer has
returned, as far as the filter lets them through. -/
theorem Loops.counted {α ω : Type} {tracer : Traceable α} {session : Session}
    {step : α → PassEnd → α → Prop} {a b : α} {outlet : Outlet IoError ω} {w : ω} {c : UInt8}
    (hp : tracer.Passes step) (htable : session.table = SYSCALLS)
    (h : Loops tracer session outlet.write a (.summary new) 0 outlet.start (.ok c) b w)
    (hw : outlet.Clean w) :
    ∃ l t, IsRun step a (l ++ [(.ok (some none), b)]) ∧ readTable (outlet.through w) = some t ∧
      ∀ name, t.counted name = tallied name ((lines l).filter session.lets) := by
  obtain ⟨l, recs, hrun, hout, htells⟩ := h.heard hp hw
  rw [htable] at htells
  have hwords := (List.forall₂_and_left (p := fun d => OneWord d.name) _ _).mp
    (htells.imp fun d line ht => ⟨ht.name ▸ oneWord_syscallName line.2.1, ht⟩)
  obtain ⟨t, hread, htable⟩ := readTable_output session.fmt hwords.1
  exact ⟨l, t, hrun, hout ▸ hread,
    fun name => (counted_eq htable name).trans (tallied_eq htells name)⟩

namespace Story

/-- The calls that start the program, and the one that it is killed in. -/
def around (s : Story) : List Made :=
  s.opening ++ s.read :: s.attempts ++ s.exec :: s.abandoned

end Story

/-- Calls of other names, before and after, do not count. -/
theorem tallied_around {session : Session} {pid : Pid} {before calls after : List Made} {n : ℕ}
    (hn : n ≤ before.length)
    (h : ∀ call ∈ before ++ after, syscallName SYSCALLS call.nr ≠ name) :
    tallied name ((((before ++ calls ++ after).drop n).map (Made.line pid)).filter session.lets) =
      tallied name ((calls.map (Made.line pid)).filter session.lets) := by
  have hother {part : List Made} (hpart : part ⊆ before ++ after) :
      tallied name ((part.map (Made.line pid)).filter session.lets) = 0 := by
    refine tallied_other fun line hline => ?_
    obtain ⟨call, hcall, rfl⟩ := List.mem_map.mp (List.mem_filter.mp hline).1
    exact h call (hpart hcall)
  have hbefore : before.drop n ⊆ before ++ after :=
    fun call hcall => List.mem_append_left _ (List.mem_of_mem_drop hcall)
  have hafter : after ⊆ before ++ after := fun call hcall => List.mem_append_right _ hcall
  rw [List.append_assoc, List.drop_append_of_le_length hn, List.map_append, List.map_append,
    List.filter_append, List.filter_append, tallied_append, tallied_append, hother hbefore,
    hother hafter, zero_add, add_zero]

/-- Two commands with a summary, one over each backend, run a program and succeed, and their outputs
have all come through: for every name that no call of the launch has, and the one that the program
is killed in has not, the numbers of the `ptrace` summary are those of the calls that the program
made, as far as the filter lets them through, and the numbers of the other are no larger, and the
same where the maps and the ring have room. -/
theorem summaries_agree {room : Bool} {s : Story} {session session' : Session}
    {table : List SyscallInfo} {k k₁ : PtraceTracer.Traced} {t : PtraceTracer}
    {p : PtraceTracer × PtraceTracer.Traced} {w w₁ : Watched} {u : EbpfTracer}
    {e : EbpfTracer × Watched}
    {memory : PtraceTracer × PtraceTracer.Traced → SyscallEvent → MemoryReader → Prop}
    {memory' : EbpfTracer × Watched → SyscallEvent → MemoryReader → Prop} {ω ω' : Type}
    {outlet : Outlet IoError ω} {outlet' : Outlet IoError ω'} {o : ω} {o' : ω'} {c c' : UInt8}
    (hk : k.Unborn) (hw : w.Unborn s)
    (hptrace : Ends (PtraceTracer.storyKernel s)
      (PtraceTracer.new (.spawn s.program s.args) ⟨false⟩) k (.ok t) k₁)
    (hebpf : Ends (watchKernel room s)
      (EbpfTracer.new table (.spawn s.program s.args) ⟨false⟩) w (.ok u) w₁)
    (htable : session.table = SYSCALLS) (htable' : session'.table = SYSCALLS)
    (hfilter : session'.filter = session.filter)
    (h : Loops (PtraceTracer.asTracer (PtraceTracer.storyKernel s) memory) session outlet.write
      (t, k₁) (.summary new) 0 outlet.start (.ok c) p o) (ho : outlet.Clean o)
    (h' : Loops (EbpfTracer.asTracer (watchKernel room s) memory') session' outlet'.write
      (u, w₁) (.summary new) 0 outlet'.start (.ok c') e o') (ho' : outlet'.Clean o') :
    ∃ tab tab', readTable (outlet.through o) = some tab ∧
      readTable (outlet'.through o') = some tab' ∧
        ∀ name, (∀ call ∈ s.around, syscallName SYSCALLS call.nr ≠ name) →
          tab.counted name = tallied name ((s.calls.map (Made.line s.pid)).filter session.lets) ∧
            tab'.counted name ≤ tab.counted name ∧
              (room = true → tab'.counted name = tab.counted name) := by
  obtain ⟨l, tab, hrun, hread, hcounted⟩ := h.counted PtraceTracer.passes_asTracer htable ho
  obtain ⟨l', tab', hrun', hread', hcounted'⟩ := h'.counted EbpfTracer.passes_asTracer htable' ho'
  obtain ⟨hlines, hfirst⟩ := PtraceTracer.Telling.lines_eq ⟨k, t, k₁, l, p, hk, hptrace, hrun⟩
  obtain ⟨hamong, hmissed⟩ :=
    EbpfTracer.Telling.lines_among ⟨table, w, u, w₁, l', e, hw, hebpf, hrun'⟩
  dsimp only at hlines hfirst hamong hmissed
  have hlets : session'.lets = session.lets := by
    funext line
    rw [Session.lets, hfilter, Session.lets]
  refine ⟨tab, tab', hread, hread', fun name hname => ?_⟩
  have hmade : tab.counted name =
      tallied name ((s.calls.map (Made.line s.pid)).filter session.lets) := by
    have hlaunched : s.launched = s.attempts ++ [s.exec] ++ s.calls ++ [] := by
      simp [Story.launched]
    rw [hcounted, hlines, hlaunched]
    refine tallied_around (by simpa using hfirst) fun call hcall => hname call ?_
    simp only [Story.around, List.mem_append, List.mem_cons] at hcall ⊢
    tauto
  have hleft : tallied name
      (((s.left.drop w₁.missed).map (Made.line s.pid)).filter session.lets) =
        tallied name ((s.calls.map (Made.line s.pid)).filter session.lets) := by
    have hall : s.left = s.opening ++ s.read :: (s.attempts ++ [s.exec]) ++ s.calls ++
        s.abandoned := by
      simp [Story.left, Story.launched]
    rw [hall]
    refine tallied_around ?_ fun call hcall => hname call ?_
    · simp only [List.length_append, List.length_cons]
      omega
    · simp only [Story.around, List.mem_append, List.mem_cons] at hcall ⊢
      tauto
  have hheard := hamong.filter session.lets
  refine ⟨hmade, ?_, fun hr => ?_⟩
  · rw [hcounted', hlets, hmade, ← hleft]
    exact tallied_le hheard.sublist
  · rw [hcounted', hlets, hheard.all hr, hleft, hmade]

/-- Both summaries count the one call of a program that asks for its pid. -/
theorem summaries_agree_pidStory : ∃ limit limit' c c' p e bytes, ∃ o : Buffered,
    Loops (PtraceTracer.asTracer (PtraceTracer.storyKernel pidStory) fun _ _ _ => True) heardSession
      (outputFile limit ⟨.StorageFull, []⟩).write
      (PtraceTracer.exitTracer, PtraceTracer.exitTraced .user false) (.summary new) 0
      Buffered.empty (.ok c) p o ∧
    Loops (EbpfTracer.asTracer (watchKernel true pidStory) fun _ _ _ => True) heardSession
      (outputStream limit' ⟨.BrokenPipe, []⟩).write (EbpfTracer.spawned, EbpfTracer.pidWatched)
      (.summary new) 0 [] (.ok c') e bytes ∧
    ∃ tab tab', readTable ((outputFile limit ⟨.StorageFull, []⟩).through o) = some tab ∧
      readTable bytes = some tab' ∧ tab.counted "getpid".toList = (1, 0) ∧
        tab'.counted "getpid".toList = (1, 0) := by
  obtain ⟨limit, c, p, o, h, ho⟩ := PtraceTracer.loops_pidStory
    (roomy_outputFile ⟨.StorageFull, []⟩) (.summary new)
  obtain ⟨limit', c', e, bytes, h', ho'⟩ := EbpfTracer.loops_pidStory
    (roomy_outputStream ⟨.BrokenPipe, []⟩) (.summary new)
  obtain ⟨tab, tab', hread, hread', hagree⟩ := summaries_agree ⟨rfl, rfl, rfl, rfl⟩
    ⟨rfl, rfl, rfl, rfl, rfl, rfl, rfl, rfl, rfl⟩ PtraceTracer.constructs_pidStory
    EbpfTracer.constructs_pidStory rfl rfl rfl h ho h' ho'
  have hother : ∀ call ∈ pidStory.around, syscallName SYSCALLS call.nr ≠ "getpid".toList := by
    decide
  obtain ⟨hcounted, -, hsame⟩ := hagree _ hother
  have hone : tab.counted "getpid".toList = (1, 0) := hcounted.trans (by decide)
  exact ⟨limit, limit', c, c', p, e, bytes, o, h, h', tab, tab', hread, hread', hone,
    (hsame rfl).trans hone⟩

end Syren
