import Syren.Common.Text

/-! Arguments that are sets of named bits. -/
namespace Syren.Flags
open Text

/-- A named bit, or a group of bits. -/
structure Flag where
  name : String
  bits : UInt64

/-- The low two bits are the access mode and are decoded separately. -/
def OPEN_FLAGS : List Flag := [
  ⟨"O_CREAT", 0o100⟩, ⟨"O_EXCL", 0o200⟩, ⟨"O_NOCTTY", 0o400⟩, ⟨"O_TRUNC", 0o1000⟩,
  ⟨"O_APPEND", 0o2000⟩, ⟨"O_NONBLOCK", 0o4000⟩, ⟨"O_DSYNC", 0o10000⟩, ⟨"O_ASYNC", 0o20000⟩,
  ⟨"O_DIRECT", 0o40000⟩, ⟨"O_LARGEFILE", 0o100000⟩, ⟨"O_DIRECTORY", 0o200000⟩,
  ⟨"O_NOFOLLOW", 0o400000⟩, ⟨"O_NOATIME", 0o1000000⟩, ⟨"O_CLOEXEC", 0o2000000⟩,
  ⟨"O_PATH", 0o10000000⟩, ⟨"O_SYNC", 0o4010000⟩, ⟨"O_TMPFILE", 0o20200000⟩]

def PROT_FLAGS : List Flag := [
  ⟨"PROT_READ", 0x1⟩, ⟨"PROT_WRITE", 0x2⟩, ⟨"PROT_EXEC", 0x4⟩, ⟨"PROT_SEM", 0x8⟩,
  ⟨"PROT_GROWSDOWN", 0x01000000⟩, ⟨"PROT_GROWSUP", 0x02000000⟩]

def MAP_FLAGS : List Flag := [
  ⟨"MAP_SHARED", 0x01⟩, ⟨"MAP_PRIVATE", 0x02⟩, ⟨"MAP_FIXED", 0x10⟩, ⟨"MAP_ANONYMOUS", 0x20⟩,
  ⟨"MAP_32BIT", 0x40⟩, ⟨"MAP_GROWSDOWN", 0x0100⟩, ⟨"MAP_DENYWRITE", 0x0800⟩,
  ⟨"MAP_EXECUTABLE", 0x1000⟩, ⟨"MAP_LOCKED", 0x2000⟩, ⟨"MAP_NORESERVE", 0x4000⟩,
  ⟨"MAP_POPULATE", 0x8000⟩, ⟨"MAP_NONBLOCK", 0x10000⟩, ⟨"MAP_STACK", 0x20000⟩,
  ⟨"MAP_HUGETLB", 0x40000⟩, ⟨"MAP_SYNC", 0x80000⟩, ⟨"MAP_FIXED_NOREPLACE", 0x100000⟩]

/-- The names of all flags present in `value`. -/
def decodeBits (set : List Flag) (value : UInt64) : List (List Char) :=
  (set.filter fun f => f.bits ≠ 0 ∧ value &&& f.bits = f.bits).map fun f => f.name.toList

/-- The union of all bits any flag in `set` can account for. -/
def covered (set : List Flag) : UInt64 := set.foldl (fun acc f => acc ||| f.bits) 0

/-- A leading token with the remaining flags and any leftover bits. -/
def join (lead : List Char) (rest : List (List Char)) (masked : UInt64) (set : List Flag) :
    List Char :=
  let leftover := masked &&& ~~~(covered set)
  lead ++ rest.flatMap (fun name => '|' :: name) ++
    if leftover ≠ 0 then '|' :: hex leftover.toNat else []

def renderSet (set : List Flag) (value : UInt64) (zero : List Char) : List Char :=
  if value = 0 then zero
  else
    let named := decodeBits set value
    let leftover := value &&& ~~~(covered set)
    if named = [] then hex value.toNat
    else if leftover = 0 then ['|'].intercalate named
    else ['|'].intercalate named ++ '|' :: hex leftover.toNat

def renderOpen (value : UInt64) : List Char :=
  let mode := if value &&& 0o3 = 0 then "O_RDONLY" else if value &&& 0o3 = 1 then "O_WRONLY"
    else if value &&& 0o3 = 2 then "O_RDWR" else "O_ACCMODE"
  let masked := value &&& ~~~0o3
  join mode.toList (decodeBits OPEN_FLAGS masked) masked OPEN_FLAGS

/-- The low bits are the mapping type. -/
def renderMap (value : UInt64) : List Char :=
  let kind := if value &&& 0xf = 0x1 then some "MAP_SHARED"
    else if value &&& 0xf = 0x2 then some "MAP_PRIVATE"
    else if value &&& 0xf = 0x3 then some "MAP_SHARED_VALIDATE" else none
  let masked := value &&& ~~~0xf
  match kind with
  | some k => join k.toList (decodeBits MAP_FLAGS masked) masked MAP_FLAGS
  | none => renderSet MAP_FLAGS value "0".toList

def render (syscall arg : String) (value : UInt64) : Option (List Char) :=
  if syscall ∈ ["open", "openat", "openat2"] ∧ arg = "flags" then some (renderOpen value)
  else if syscall ∈ ["mmap", "mprotect", "pkey_mprotect"] ∧ arg = "prot" then
    some (renderSet PROT_FLAGS value "PROT_NONE".toList)
  else if syscall = "mmap" ∧ arg = "flags" then some (renderMap value)
  else none

end Syren.Flags
