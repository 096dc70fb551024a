import Syren.Json.Reader
import Syren.Output.Consumer

/-! The stream of the JSON output as its consumers read it: every line is the text of one JSON
object, and the object has everything that the record has. -/
namespace Syren.Output
open Text Json Layout

namespace JsonSink

/-- The object that stands for an argument, with the name only where there is one. -/
def argValue (a : DecodedArg) : Value :=
  .object ((a.name.map fun name => ("name".toList, Value.string name.toList)).toList ++
    [("value".toList, .string a.value), ("raw".toList, .number a.raw.toNat)])

def errorValue (e : DecodedError) : Value :=
  .object [("errno".toList, .number e.errno.toInt), ("name".toList, .string e.name.toList),
    ("description".toList, .string e.description.toList)]

/-- The object that stands for a record. -/
def valueOf (rec : Record) : Value :=
  match rec with
  | .syscall s => .object ([("type".toList, .string "syscall".toList),
      ("pid".toList, .number s.pid.toNat), ("tid".toList, .number s.tid.toNat),
      ("nr".toList, .number s.nr.toNat), ("name".toList, .string s.name),
      ("args".toList, .array (s.args.map argValue)), ("retval".toList, .number s.retval.toInt)] ++
      (s.error.map fun e => ("error".toList, errorValue e)).toList ++
      [("duration_ns".toList, .number s.durationNs.toNat),
        ("ts_enter_ns".toList, .number s.tsEnterNs.toNat)])
  | .exit pid code => .object [("type".toList, .string "exit".toList),
      ("pid".toList, .number pid.toNat), ("code".toList, .number code.toInt)]
  | .signal pid sig => .object [("type".toList, .string "signal".toList),
      ("pid".toList, .number pid.toNat), ("signal".toList, .number sig.toInt)]

theorem numeral_eq (n : ℤ) : numeral n = decInt n := rfl

theorem decInt_natCast (n : ℕ) : decInt n = dec n := if_neg (by omega)

/-- An object of texts is the text of an object, where its fields are texts of values. -/
theorem object_write {fields : List (String × List Char)} {values : List (List Char × Value)}
    (h : fields.map (fun f => (f.1.toList, f.2)) =
      values.map fun f => (f.1, write escapeChar f.2)) :
    object fields = write escapeChar (.object values) := by
  have hjoin : fields.map (fun f => string f.1.toList ++ ':' :: f.2) =
      values.map fun f => quoted escapeChar f.1 ++ ':' :: write escapeChar f.2 := by
    have hmap := congrArg (List.map fun f : List Char × List Char =>
      string f.1 ++ ':' :: f.2) h
    rw [List.map_map, List.map_map] at hmap
    exact hmap
  rw [object, write, writeFields_eq, hjoin]

theorem arg_write (a : DecodedArg) : arg a = write escapeChar (argValue a) := by
  apply object_write
  cases a.name <;> simp [write, string, quoted, numeral_eq, decInt_natCast]

theorem error_write (e : DecodedError) : error e = write escapeChar (errorValue e) := by
  apply object_write
  simp [write, string, quoted, numeral_eq]

theorem array_write (args : List DecodedArg) :
    array (args.map arg) = write escapeChar (.array (args.map argValue)) := by
  rw [array, write, writeItems_eq, List.map_map]
  congr 4
  funext a
  exact arg_write a

/-- What is written for a record is the text of its object. -/
theorem toWriter_write (rec : Record) : toWriter rec = write escapeChar (valueOf rec) := by
  cases rec with
  | syscall s =>
    apply object_write
    have hargs := array_write s.args
    cases he : s.error with
    | none => simp [write, string, quoted, numeral_eq, decInt_natCast, hargs]
    | some e =>
      simp [write, string, quoted, numeral_eq, decInt_natCast, hargs, error_write]
  | exit pid code =>
    apply object_write
    simp [write, string, quoted, numeral_eq, decInt_natCast]
  | signal pid sig =>
    apply object_write
    simp [write, string, quoted, numeral_eq, decInt_natCast]

theorem escapeChar_readable : Readable escapeChar := by
  intro c rest
  unfold escapeChar
  split_ifs with hquote hslash hline hreturn htab hback hfeed hcontrol
  · subst hquote; rfl
  · subst hslash; rfl
  · subst hline; rfl
  · subst hreturn; rfl
  · subst htab; rfl
  · subst hback; rfl
  · subst hfeed; rfl
  · have hlt : c.toNat < 32 := hcontrol
    have hhigh := hexValue_digitChar (show c.toNat / 16 < 16 by omega)
    have hlow := hexValue_digitChar (show c.toNat % 16 < 16 by omega)
    have hsum : c.toNat / 16 * 16 + c.toNat % 16 = c.toNat := by omega
    show Option.map _ (unicodeEscape '0' '0' (Nat.digitChar (c.toNat / 16))
      (Nat.digitChar (c.toNat % 16))) = _
    have hzero : hexValue '0' = some 0 := rfl
    have hvalid : c.toNat.isValidChar := .inl (by omega)
    simp [unicodeEscape, hzero, hhigh, hlow, hsum, hvalid, Char.ofNat_toNat]
  · have hspace : ¬ c < ' ' := hcontrol
    show readChar (c :: rest) = _
    unfold readChar
    split <;> simp_all

/-- A field of an object. -/
def field (name : String) : Value → Option Value
  | .object fields => fields.lookup name.toList
  | _ => none

def asNumber : Value → Option ℤ
  | .number n => some n
  | _ => none

def asText : Value → Option (List Char)
  | .string text => some text
  | _ => none

def asItems : Value → Option (List Value)
  | .array items => some items
  | _ => none

theorem field_cons (name key : String) (v : Value) (fields : List (List Char × Value)) :
    field name (.object ((key.toList, v) :: fields)) =
      if name = key then some v else field name (.object fields) := by
  show List.lookup name.toList ((key.toList, v) :: fields) =
    if name = key then some v else List.lookup name.toList fields
  rw [List.lookup_cons]
  by_cases h : name = key
  · simp [h]
  · have hne : (name.toList == key.toList) = false :=
      beq_false_of_ne fun he => h (String.toList_inj.mp he)
    simp [h, hne]

theorem field_nil (name : String) : field name (.object []) = none := rfl

def number (name : String) (v : Value) : Option ℤ := do asNumber (← field name v)

def text (name : String) (v : Value) : Option (List Char) := do asText (← field name v)

def readArg (v : Value) : Option DecodedArg := do
  let name := (text "name" v).map String.ofList
  return { name, value := ← text "value" v, raw := UInt64.ofNat (← number "raw" v).toNat }

def readError (v : Value) : Option DecodedError := do
  return { errno := Int32.ofInt (← number "errno" v)
           name := String.ofList (← text "name" v)
           description := String.ofList (← text "description" v) }

def readSyscall (v : Value) : Option DecodedSyscall := do
  let items ← asItems (← field "args" v)
  let error ← match field "error" v with
    | some e => (readError e).map some
    | none => some none
  return { pid := UInt32.ofNat (← number "pid" v).toNat
           tid := UInt32.ofNat (← number "tid" v).toNat
           nr := UInt64.ofNat (← number "nr" v).toNat
           name := ← text "name" v
           args := ← items.mapM readArg
           retval := Int64.ofInt (← number "retval" v)
           error
           durationNs := UInt64.ofNat (← number "duration_ns" v).toNat
           tsEnterNs := UInt64.ofNat (← number "ts_enter_ns" v).toNat }

/-- What the tag of an object says. -/
def kind (v : Value) : Option String := (text "type" v).map String.ofList

/-- The record that an object stands for. -/
def readRecord (v : Value) : Option Record := do
  match ← kind v with
  | "syscall" => return .syscall (← readSyscall v)
  | "exit" => return .exit (UInt32.ofNat (← number "pid" v).toNat) (Int32.ofInt (← number "code" v))
  | "signal" =>
    return .signal (UInt32.ofNat (← number "pid" v).toNat) (Int32.ofInt (← number "signal" v))
  | _ => none

theorem readArg_argValue (a : DecodedArg) : readArg (argValue a) = some a := by
  obtain ⟨name, value, raw⟩ := a
  cases name with
  | none =>
    simp only [readArg, argValue, Option.map_none, Option.toList_none, List.nil_append, number,
      text, field_cons, field_nil, asNumber, asText, String.reduceEq, ite_true, ite_false]
    simp
  | some name =>
    simp only [readArg, argValue, Option.map_some, Option.toList_some, List.singleton_append,
      number, text, field_cons, asNumber, asText, String.reduceEq, ite_true, ite_false]
    simp

theorem readError_errorValue (e : DecodedError) : readError (errorValue e) = some e := by
  simp only [readError, errorValue, number, text, field_cons, asNumber, asText, String.reduceEq,
    ite_true, ite_false]
  simp

theorem mapM_readArg (args : List DecodedArg) :
    (args.map argValue).mapM readArg = some args := by
  induction args with
  | nil => rfl
  | cons a args ih => simp [List.mapM_cons, readArg_argValue, ih]

theorem readSyscall_valueOf (s : DecodedSyscall) : readSyscall (valueOf (.syscall s)) = some s := by
  obtain ⟨pid, tid, nr, name, args, retval, error, durationNs, tsEnterNs⟩ := s
  have hargs := mapM_readArg args
  cases error with
  | none =>
    simp only [readSyscall, valueOf, Option.map_none, Option.toList_none, List.append_nil,
      List.cons_append, List.nil_append, number, text, field_cons, field_nil, asNumber, asText,
      asItems, String.reduceEq, ite_true, ite_false]
    simp [hargs]
  | some e =>
    have herror := readError_errorValue e
    simp only [readSyscall, valueOf, Option.map_some, Option.toList_some, List.cons_append,
      List.nil_append, number, text, field_cons, asNumber, asText, asItems, String.reduceEq,
      ite_true, ite_false]
    simp [hargs, herror]

theorem kind_cons (tag : String) (fields : List (List Char × Value)) :
    kind (.object (("type".toList, .string tag.toList) :: fields)) = some tag := by
  rw [kind, text, field_cons, if_pos rfl]
  exact congrArg some String.ofList_toList

theorem readRecord_valueOf (rec : Record) : readRecord (valueOf rec) = some rec := by
  cases rec with
  | syscall s =>
    have hkind : kind (valueOf (.syscall s)) = some "syscall" := kind_cons _ _
    rw [readRecord, hkind]
    simp [readSyscall_valueOf]
  | exit pid code =>
    have hkind : kind (valueOf (.exit pid code)) = some "exit" := kind_cons _ _
    have hpid : number "pid" (valueOf (.exit pid code)) = some pid.toNat := by
      simp only [valueOf, number, field_cons, String.reduceEq, ite_true, ite_false]
      rfl
    have hcode : number "code" (valueOf (.exit pid code)) = some code.toInt := by
      simp only [valueOf, number, field_cons, String.reduceEq, ite_true, ite_false]
      rfl
    rw [readRecord, hkind]
    simp [hpid, hcode]
  | signal pid sig =>
    have hkind : kind (valueOf (.signal pid sig)) = some "signal" := kind_cons _ _
    have hpid : number "pid" (valueOf (.signal pid sig)) = some pid.toNat := by
      simp only [valueOf, number, field_cons, String.reduceEq, ite_true, ite_false]
      rfl
    have hsig : number "signal" (valueOf (.signal pid sig)) = some sig.toInt := by
      simp only [valueOf, number, field_cons, String.reduceEq, ite_true, ite_false]
      rfl
    rw [readRecord, hkind]
    simp [hpid, hsig]

/-- The records of a stream of lines, each a JSON text. -/
def readStream (bytes : List UInt8) : Option (List Record) := do
  (← endedLines bytes).mapM fun line => do readRecord (← parse line)

theorem newline_notMem_escape (c : Char) : '\n' ∉ escapeChar c := by
  have hdigit (n : ℕ) : Nat.digitChar n ≠ '\n' := Nat.digitChar_ne '\n' (by decide)
  unfold escapeChar
  split_ifs with hquote hslash hline hreturn htab hback hfeed hcontrol
  · decide
  · decide
  · decide
  · decide
  · decide
  · decide
  · decide
  · simp [Ne.symm (hdigit _)]
  · simpa using Ne.symm hline

theorem newline_notMem_toWriter (rec : Record) : '\n' ∉ toWriter rec := by
  rw [toWriter_write]
  exact notMem_write newline_notMem_escape (by decide) (by decide) _

theorem mapM_readRecord (recs : List Record) :
    (recs.map toWriter).mapM (fun line => do readRecord (← parse line)) = some recs := by
  induction recs with
  | nil => rfl
  | cons rec recs ih =>
    have hparse : parse (toWriter rec) = some (valueOf rec) := by
      rw [toWriter_write]
      exact parse_write escapeChar_readable _
    simp only [List.map_cons, List.mapM_cons, hparse, ih]
    simp [readRecord_valueOf]

theorem json_output_eq (fmt : Formatting) (recs : List Record) :
    Sink.json.output fmt recs = utf8 ((recs.map toWriter).flatMap (· ++ ['\n'])) := by
  rw [List.flatMap_map]
  show (recs.flatMap fun rec => utf8 (toWriter rec) ++ [10]) = _
  induction recs with
  | nil => rfl
  | cons rec recs ih =>
    rw [List.flatMap_cons, ih, List.flatMap_cons, ← utf8_newline]
    exact List.flatMap_append.symm

theorem readStream_output (fmt : Formatting) (recs : List Record) :
    readStream (Sink.json.output fmt recs) = some recs := by
  have hlines : ∀ text ∈ recs.map toWriter, '\n' ∉ text := by
    intro text htext
    obtain ⟨rec, -, rfl⟩ := List.mem_map.mp htext
    exact newline_notMem_toWriter rec
  rw [readStream, json_output_eq, endedLines_utf8 hlines]
  exact mapM_readRecord recs

/-- Whatever the records, and however their texts are divided into writes, what the JSON sink writes
is valid UTF-8 and has one line for each record, each line is the text of a JSON object, and the
objects give back all that the records have. -/
theorem json_readsBack (fmt : Formatting) (recs : List Record) :
    readStream ((Sink.json.allWrites fmt recs).flatMap Prod.fst) = some recs := by
  rw [Sink.allWrites_output]
  exact readStream_output fmt recs

end JsonSink

end Syren.Output
