import Mathlib.Algebra.BigOperators.Group.List.Basic
import Mathlib.Tactic.Common

/-! The record of one completed syscall, as the in-kernel programs lay it out in the ring buffer
(`repr(C)`, little endian) and as userspace reads it back. -/
namespace Syren

def CAP_BYTES : ℕ := 128

def MAX_SYSCALLS : UInt32 := 512

@[ext] structure Record where
  pid : UInt32
  tid : UInt32
  nr : UInt64
  args : Vector UInt64 6
  retval : Int64
  tsEnterNs : UInt64
  durationNs : UInt64
  capAddr : UInt64
  capLen : UInt32
  pad : UInt32
  cap : Vector UInt8 CAP_BYTES
  deriving DecidableEq

namespace Record

def SIZE : ℕ := 232

/-- The little-endian number in the `len` bytes at `off`. -/
def word (bytes : List UInt8) (off len : ℕ) : ℕ :=
  ((bytes.drop off).take len).foldr (fun b n => b.toNat + 256 * n) 0

def fromBytes (bytes : List UInt8) : Option Record :=
  if bytes.length < SIZE then none
  else some {
    pid := UInt32.ofNat (word bytes 0 4)
    tid := UInt32.ofNat (word bytes 4 4)
    nr := UInt64.ofNat (word bytes 8 8)
    args := Vector.ofFn fun i => UInt64.ofNat (word bytes (16 + 8 * i) 8)
    retval := (UInt64.ofNat (word bytes 64 8)).toInt64
    tsEnterNs := UInt64.ofNat (word bytes 72 8)
    durationNs := UInt64.ofNat (word bytes 80 8)
    capAddr := UInt64.ofNat (word bytes 88 8)
    capLen := UInt32.ofNat (word bytes 96 4)
    pad := UInt32.ofNat (word bytes 100 4)
    cap := Vector.ofFn fun i => bytes.getD (104 + i) 0 }

def captured (r : Record) : List UInt8 := r.cap.toList.take (min r.capLen.toNat CAP_BYTES)

/-- Only an item that is too short holds no record. -/
theorem fromBytes_eq_none {bytes : List UInt8} :
    fromBytes bytes = none ↔ bytes.length < SIZE := by
  unfold fromBytes
  split_ifs with hlen
  · exact iff_of_true rfl hlen
  · exact iff_of_false nofun hlen

/-- The captured bytes stand in the item from the offset of the buffer on. -/
theorem captured_fromBytes {bytes : List UInt8} {r : Record} (h : fromBytes bytes = some r) :
    r.captured = (bytes.drop 104).take (min r.capLen.toNat CAP_BYTES) := by
  unfold fromBytes at h
  split_ifs at h with hlen
  have hcap : r.cap.toList = (bytes.drop 104).take CAP_BYTES := by
    obtain rfl := Option.some.inj h
    have hsize : 104 + CAP_BYTES ≤ bytes.length := Nat.le_of_not_lt hlen
    refine List.ext_getElem ?_ fun i hi _ => ?_
    · rw [Vector.length_toList, List.length_take, List.length_drop]
      omega
    · rw [Vector.length_toList] at hi
      rw [Vector.getElem_toList, Vector.getElem_ofFn, List.getElem_take, List.getElem_drop,
        List.getD_eq_getElem?_getD, List.getElem?_eq_getElem (by omega), Option.getD_some]
  rw [captured, hcap, List.take_take, Nat.min_eq_left (Nat.min_le_right _ _)]

end Record

end Syren
