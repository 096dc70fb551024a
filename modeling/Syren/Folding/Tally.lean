import Mathlib.Algebra.GroupWithZero.Nat
import Mathlib.Data.Finmap

/-! Tallies: a map with one entry for each key, each entry brought up to date by the items of its
key. -/
namespace Folding

variable {ι κ ν : Type} [DecidableEq κ] {m : Finmap fun _ : κ => ν} {k k' : κ}

/-- Update the entry of a key, which is `start` if there is none. -/
def upsert (m : Finmap fun _ : κ => ν) (k : κ) (start : ν) (update : ν → ν) :
    Finmap fun _ : κ => ν :=
  m.insert k (update ((m.lookup k).getD start))

variable {start : ν} {update : ν → ν}

@[simp] theorem lookup_upsert_self :
    (upsert m k start update).lookup k = some (update ((m.lookup k).getD start)) :=
  Finmap.lookup_insert _

theorem lookup_upsert_of_ne (h : k' ≠ k) : (upsert m k start update).lookup k' = m.lookup k' :=
  Finmap.lookup_insert_of_ne _ h

/-- Items brought into a tally one after the other. -/
def tally (key : ι → κ) (start : ν) (update : ν → ι → ν) (m : Finmap fun _ : κ => ν)
    (items : List ι) : Finmap fun _ : κ => ν :=
  items.foldl (fun m x => upsert m (key x) start fun v => update v x) m

variable {key : ι → κ} {upd : ν → ι → ν}

theorem tally_cons (x : ι) (items : List ι) : tally key start upd m (x :: items) =
    tally key start upd (upsert m (key x) start fun v => upd v x) items := rfl

/-- The entry of a key is made by its own items alone, in their order. -/
theorem lookup_tally (items : List ι) : (tally key start upd m items).lookup k =
    if ∃ x ∈ items, key x = k then
      some ((items.filter (key · = k)).foldl upd ((m.lookup k).getD start))
    else m.lookup k := by
  induction items generalizing m with
  | nil => simp [tally]
  | cons x items ih =>
    rw [tally_cons, ih]
    by_cases hx : key x = k
    · subst hx
      simp only [lookup_upsert_self, Option.getD_some, List.mem_cons, exists_eq_or_imp, true_or,
        if_true, decide_true, List.filter_cons_of_pos, List.foldl_cons]
      split_ifs with hmore
      · rfl
      · rw [List.filter_eq_nil_iff.mpr fun y hy => by simpa using fun h => hmore ⟨y, hy, h⟩]
        rfl
    · rw [lookup_upsert_of_ne (Ne.symm hx)]
      simp [hx]

/-- A quantity that an update of an entry raises by `n` is raised by `n` in the whole map. -/
theorem sum_upsert {f : ν → ℕ} {n : ℕ} (hstart : f start = 0)
    (hupdate : ∀ v, f (update v) = f v + n) :
    ((upsert m k start update).entries.map fun e => f e.2).sum =
      (m.entries.map fun e => f e.2).sum + n := by
  unfold upsert
  cases hk : m.lookup k with
  | none =>
    rw [Finmap.entries_insert_of_notMem (Finmap.lookup_eq_none.mp hk), Multiset.map_cons,
      Multiset.sum_cons, Option.getD_none, hupdate, hstart]
    omega
  | some v =>
    have hsame : (m.erase k).insert k v = m := by
      apply Finmap.ext_lookup
      intro k'
      by_cases hk' : k' = k
      · rw [hk', Finmap.lookup_insert, hk]
      · rw [Finmap.lookup_insert_of_ne _ hk', Finmap.lookup_erase_ne hk']
    have hnot : k ∉ m.erase k := by simp
    conv_lhs => rw [← hsame, Finmap.insert_insert]
    conv_rhs => rw [← hsame]
    rw [Finmap.entries_insert_of_notMem hnot, Finmap.entries_insert_of_notMem hnot,
      Multiset.map_cons, Multiset.map_cons, Multiset.sum_cons, Multiset.sum_cons, Option.getD_some,
      hupdate]
    dsimp only
    omega

theorem sum_tally {f : ν → ℕ} {weight : ι → ℕ} (hstart : f start = 0)
    (hupd : ∀ v x, f (upd v x) = f v + weight x) (items : List ι) :
    ((tally key start upd m items).entries.map fun e => f e.2).sum =
      (m.entries.map fun e => f e.2).sum + (items.map weight).sum := by
  induction items generalizing m with
  | nil => rfl
  | cons x items ih =>
    rw [tally_cons, ih, sum_upsert hstart fun v => hupd v x, List.map_cons, List.sum_cons, Nat.add_assoc]

end Folding
