import Mathlib.Tactic.Common

/-! Computations that write to a state and may fail, and a writer that takes a number of bytes and
then refuses. -/
namespace Writers

variable {ε σ α β : Type}

/-- A computation over a state. A failure keeps the state it was reached with. -/
abbrev Io (ε σ α : Type) := ExceptT ε (StateM σ) α

/-- The result of a computation with the state after it. -/
def outcome (x : Io ε σ α) (s : σ) : Except ε α × σ := (x.run).run s

/-- The pieces of a text, written one after the other. -/
def writePieces (write : List UInt8 → Io ε σ Unit) (pieces : List (List UInt8)) : Io ε σ Unit :=
  pieces.forM write

/-- Writes, each with the conversion that its failure goes through. -/
def perform (write : List UInt8 → Io ε σ Unit) (writes : List (List UInt8 × (ε → ε))) :
    Io ε σ Unit :=
  writes.forM fun w => ExceptT.adapt w.2 (write w.1)

/-- `write_all` to a writer that takes `limit` bytes and refuses any more. -/
def writeAll (limit : ℕ) (refusal : ε) (piece : List UInt8) : Io ε (List UInt8) Unit := fun written =>
  if written.length + piece.length ≤ limit then (.ok (), written ++ piece)
  else (.error refusal, written ++ piece.take (limit - written.length))

@[simp] theorem outcome_pure (a : α) (s : σ) : outcome (pure a : Io ε σ α) s = (.ok a, s) := rfl

theorem outcome_bind (x : Io ε σ α) (f : α → Io ε σ β) (s : σ) :
    outcome (x >>= f) s = (ExceptT.bindCont f (outcome x s).1).run (outcome x s).2 := rfl

theorem outcome_bind_ok {x : Io ε σ α} {f : α → Io ε σ β} {s s' : σ} {a : α}
    (h : outcome x s = (.ok a, s')) : outcome (x >>= f) s = outcome (f a) s' := by
  rw [outcome_bind, h]
  rfl

theorem outcome_bind_error {x : Io ε σ α} {f : α → Io ε σ β} {s s' : σ} {e : ε}
    (h : outcome x s = (.error e, s')) : outcome (x >>= f) s = (.error e, s') := by
  rw [outcome_bind, h]
  rfl

theorem outcome_bind_eq_ok {x : Io ε σ α} {f : α → Io ε σ β} {s s'' : σ} {b : β}
    (h : outcome (x >>= f) s = (.ok b, s'')) :
    ∃ a s', outcome x s = (.ok a, s') ∧ outcome (f a) s' = (.ok b, s'') := by
  cases hx : outcome x s with
  | mk result s' =>
    cases result with
    | error e =>
      rw [outcome_bind_error hx] at h
      cases h
    | ok a =>
      rw [outcome_bind_ok hx] at h
      exact ⟨a, s', rfl, h⟩

theorem outcome_adapt (f : ε → ε) (x : Io ε σ α) (s : σ) :
    outcome (ExceptT.adapt f x) s = ((outcome x s).1.mapError f, (outcome x s).2) := rfl

theorem io_ext {x y : Io ε σ α} (h : ∀ s, outcome x s = outcome y s) : x = y := funext h

theorem adapt_id (x : Io ε σ α) : ExceptT.adapt id x = x := by
  apply io_ext
  intro s
  rw [outcome_adapt]
  rcases outcome x s with ⟨⟨e⟩ | ⟨a⟩, s'⟩ <;> rfl

theorem adapt_bind (f : ε → ε) (x : Io ε σ α) (g : α → Io ε σ β) :
    ExceptT.adapt f (x >>= g) = ExceptT.adapt f x >>= fun a => ExceptT.adapt f (g a) := by
  apply io_ext
  intro s
  have hx := outcome_adapt f x s
  rw [outcome_adapt]
  cases h : outcome x s with
  | mk result s' =>
    rw [h] at hx
    cases result with
    | error e => rw [outcome_bind_error h, outcome_bind_error hx]; rfl
    | ok a => rw [outcome_bind_ok h, outcome_bind_ok hx, outcome_adapt]

section Perform

variable {write : List UInt8 → Io ε σ Unit}

@[simp] theorem perform_nil : perform write [] = pure () := rfl

theorem perform_cons (w : List UInt8 × (ε → ε)) (ws : List (List UInt8 × (ε → ε))) :
    perform write (w :: ws) =
      ExceptT.adapt w.2 (write w.1) >>= fun _ => perform write ws := rfl

theorem perform_cons_ok {w : List UInt8 × (ε → ε)} {ws : List (List UInt8 × (ε → ε))} {s s' : σ}
    (h : outcome (write w.1) s = (.ok (), s')) :
    outcome (perform write (w :: ws)) s = outcome (perform write ws) s' := by
  have hadapt := outcome_adapt w.2 (write w.1) s
  rw [h] at hadapt
  rw [perform_cons, outcome_bind_ok hadapt]

theorem perform_cons_error {w : List UInt8 × (ε → ε)} {ws : List (List UInt8 × (ε → ε))} {s : σ}
    {e : ε} (h : (outcome (write w.1) s).1 = .error e) :
    (outcome (perform write (w :: ws)) s).1 = .error (w.2 e) := by
  have hadapt := outcome_adapt w.2 (write w.1) s
  rw [h] at hadapt
  rw [perform_cons, outcome_bind_error hadapt]

/-- A failed write leaves the state that it failed in. -/
theorem perform_cons_stuck {w : List UInt8 × (ε → ε)} {ws : List (List UInt8 × (ε → ε))} {s s' : σ}
    {e : ε} (h : outcome (write w.1) s = (.error e, s')) :
    outcome (perform write (w :: ws)) s = (.error (w.2 e), s') := by
  have hadapt := outcome_adapt w.2 (write w.1) s
  rw [h] at hadapt
  rw [perform_cons, outcome_bind_error hadapt]

theorem perform_append (ws ws' : List (List UInt8 × (ε → ε))) :
    perform write (ws ++ ws') = perform write ws >>= fun _ => perform write ws' := by
  simp [perform]

/-- A conversion around some writes is one around each. -/
theorem adapt_writePieces (f : ε → ε) (pieces : List (List UInt8)) :
    ExceptT.adapt f (writePieces write pieces) = perform write (pieces.map fun p => (p, f)) := by
  induction pieces with
  | nil => rfl
  | cons p pieces ih =>
    have hcons : writePieces write (p :: pieces) =
      write p >>= fun _ => writePieces write pieces := rfl
    rw [List.map_cons, perform_cons, ← ih, hcons, adapt_bind]

theorem writePieces_eq (pieces : List (List UInt8)) :
    writePieces write pieces = perform write (pieces.map fun p => (p, id)) := by
  rw [← adapt_writePieces, adapt_id]

end Perform

section Limit

variable {limit : ℕ} {refusal : ε} {written : List UInt8}

theorem writeAll_fits {piece : List UInt8} (h : written.length + piece.length ≤ limit) :
    outcome (writeAll limit refusal piece) written = (.ok (), written ++ piece) := if_pos h

theorem writeAll_refused {piece : List UInt8} (h : limit < written.length + piece.length) :
    (outcome (writeAll limit refusal piece) written).1 = .error refusal :=
  congrArg Prod.fst (if_neg (Nat.not_le.mpr h))

variable {ws : List (List UInt8 × (ε → ε))}

/-- Writes that fit are all taken. -/
theorem perform_fits (h : written.length + (ws.flatMap Prod.fst).length ≤ limit) :
    outcome (perform (writeAll limit refusal) ws) written =
      (.ok (), written ++ ws.flatMap Prod.fst) := by
  induction ws generalizing written with
  | nil => simp
  | cons w ws ih =>
    rw [List.flatMap_cons, List.length_append] at h
    rw [perform_cons_ok (writeAll_fits (by omega)), ih (by rw [List.length_append]; omega),
      List.flatMap_cons, List.append_assoc]

/-- Writes that succeed were all taken. -/
theorem perform_ok {s : List UInt8}
    (h : outcome (perform (writeAll limit refusal) ws) written = (.ok (), s)) :
    s = written ++ ws.flatMap Prod.fst := by
  induction ws generalizing written with
  | nil =>
    cases h
    simp
  | cons w ws ih =>
    by_cases hfits : written.length + w.1.length ≤ limit
    · rw [perform_cons_ok (writeAll_fits hfits)] at h
      rw [ih h, List.flatMap_cons, List.append_assoc]
    · have hrefused : (outcome (perform (writeAll limit refusal) (w :: ws)) written).1 =
          .error (w.2 refusal) := perform_cons_error (writeAll_refused (Nat.lt_of_not_le hfits))
      rw [h] at hrefused
      cases hrefused

/-- Writes that do not fit end with the refusal, as they convert it. -/
theorem perform_refused {e : ε} (hconv : ∀ w ∈ ws, w.2 refusal = e)
    (h : limit < written.length + (ws.flatMap Prod.fst).length) (hlimit : written.length ≤ limit) :
    (outcome (perform (writeAll limit refusal) ws) written).1 = .error e := by
  induction ws generalizing written with
  | nil => simp at h; omega
  | cons w ws ih =>
    rw [List.flatMap_cons, List.length_append] at h
    by_cases hfits : written.length + w.1.length ≤ limit
    · rw [perform_cons_ok (writeAll_fits hfits)]
      apply ih (fun v hv => hconv v (List.mem_cons_of_mem w hv))
      · rw [List.length_append]
        omega
      · rw [List.length_append]
        exact hfits
    · rw [perform_cons_error (writeAll_refused (Nat.lt_of_not_le hfits)),
        hconv w List.mem_cons_self]

end Limit

end Writers
