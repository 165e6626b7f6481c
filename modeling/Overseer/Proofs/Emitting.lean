import Mathlib.Data.List.Nodup
import Mathlib.Data.List.Range
import Overseer.Log.Emitter
import Overseer.Proofs.Numerals
import Overseer.Proofs.Recording
import Overseer.Proofs.Utf8

/-!
# What an emitter has written

Each call writes one entry on a line of its own.  An entry without a trace id is given one, with the next number; an
entry that brings its trace id keeps it, and takes no number.

    content = line of the 1st entry, LF, line of the 2nd entry, LF, …          lines content = the lines
    jth trace id that is given = run::session::j

Main statements: `apply_eq`, `stream_of_calls`.
-/

namespace Overseer.Log

open Emitter (traceId)

/-- A call of an emitter; the timestamp is that of the clock. -/
inductive Call
  | emit (timestamp : String) (level : Severity) (event : String)
  | entry (e : Entry)
  | log (timestamp : String) (level : Severity) (message : String)

namespace Call

/-- The entry that is to be written, before it is given a trace id. -/
def asked : Call → Entry
  | emit timestamp level event => Entry.make timestamp "" level event
  | entry e => e
  | log timestamp level message =>
    { Entry.make timestamp "" level "runtime_log" with
      details := some (.ofPairs [("message", .text message)]) }

/-- The entry is to be given a trace id. -/
def isAutomatic (c : Call) : Bool := c.asked.traceId == ""

/-- The emitter after the call. -/
def apply (m : Emitter) : Call → Emitter
  | emit timestamp level event => (m.emit timestamp level event).2
  | entry e => m.emitEntry e
  | log timestamp level message => m.log timestamp level message

/-- The trace id with which `emit` answers. -/
def answer (m : Emitter) : Call → Option String
  | emit timestamp level event => some (m.emit timestamp level event).1
  | _ => none

/-- The entry that is written when `n` trace ids have been given before. -/
def written (run session : String) (n : Nat) (c : Call) : Entry :=
  if c.isAutomatic then { c.asked with traceId := traceId run session (n + 1) } else c.asked

end Call

/-- How many trace ids calls are given. -/
def given (cs : List Call) : Nat := cs.countP Call.isAutomatic

/-- The entries of calls, one for each. -/
def entriesOf (run session : String) (cs : List Call) : List Entry :=
  cs.mapIdx fun i c => c.written run session (given (cs.take i))

/-- The trace ids that calls are given, in their order. -/
def givenIds (run session : String) (cs : List Call) : List String :=
  ((cs.zip (entriesOf run session cs)).filter fun p => p.1.isAutomatic).map fun p => p.2.traceId

section

variable {run session : String} {m : Emitter} {c : Call} {cs : List Call} {l r acc : List Char} {n k : Nat}

/-! ## One call -/

/-- The three ways to call an emitter are one. -/
theorem Call.apply_eq : c.apply m =
    { m with seq := m.seq + given [c], written := (c.written m.runId m.session m.seq).line :: m.written } := by
  cases c with
  | emit => rfl
  | log => rfl
  | entry e =>
    by_cases h : e.traceId = "" <;>
      simp [apply, Emitter.emitEntry, given, written, isAutomatic, asked, Emitter.writeLine, h]

theorem Call.traceId_written (h : c.asked.traceId = "") :
    (c.written run session n).traceId = traceId run session (n + 1) := by
  simp [written, isAutomatic, h]

/-! ## Calls after one another

By induction from the last call on, whose number is told by the calls before it. -/

theorem given_append (ds : List Call) : given (cs ++ ds) = given cs + given ds := List.countP_append

theorem entriesOf_concat : entriesOf run session (cs ++ [c]) =
    entriesOf run session cs ++ [c.written run session (given cs)] := by
  have hbefore : ∀ i < cs.length, (cs ++ [c]).take i = cs.take i := fun i hi => List.take_append_of_le_length hi.le
  unfold entriesOf
  rw [List.mapIdx_concat, List.take_left]
  congr 1
  refine List.ext_getElem (by simp) fun i hi _ => ?_
  rw [List.length_mapIdx] at hi
  rw [List.getElem_mapIdx, List.getElem_mapIdx, hbefore i hi]

theorem length_entriesOf : (entriesOf run session cs).length = cs.length := List.length_mapIdx

theorem foldl_apply : cs.foldl Call.apply (.fresh run session) =
    ⟨given cs, run, session, ((entriesOf run session cs).map Entry.line).reverse⟩ := by
  induction cs using List.reverseRecOn with
  | nil => rfl
  | append_singleton cs c ih =>
    rw [List.foldl_concat, ih, Call.apply_eq, given_append, entriesOf_concat]
    simp

theorem givenIds_eq : givenIds run session cs = (List.range (given cs)).map fun j => traceId run session (j + 1) := by
  induction cs using List.reverseRecOn with
  | nil => rfl
  | append_singleton cs c ih =>
    have hzip : (cs ++ [c]).zip (entriesOf run session (cs ++ [c])) =
        cs.zip (entriesOf run session cs) ++ [(c, c.written run session (given cs))] := by
      rw [entriesOf_concat, List.zip_append length_entriesOf.symm]
      rfl
    rw [givenIds, hzip, List.filter_append, List.map_append, ← givenIds, ih, given_append]
    cases hc : c.isAutomatic with
    | false => simp [given, hc]
    | true => simp [given, hc, List.range_succ, Call.written]

theorem traceId_inj : traceId run session n = traceId run session k ↔ n = k := by
  constructor
  · intro h
    have hchars := congrArg String.toList h
    simp only [traceId, String.toList_append, List.append_cancel_left_eq] at hchars
    exact padded_inj.1 (String.toList_injective hchars)
  · rintro rfl
    rfl

/-! ## Lines -/

theorem linesFrom_cons {d : Char} (hd : d ≠ '\n') : linesFrom acc (d :: r) = linesFrom (d :: acc) r := by
  rw [linesFrom.eq_def]
  simp [hd]

theorem linesFrom_append (hl : '\n' ∉ l) : linesFrom acc (l ++ r) = linesFrom (l.reverse ++ acc) r := by
  induction l generalizing acc with
  | nil => rfl
  | cons c l ih =>
    rw [List.mem_cons, not_or] at hl
    rw [List.cons_append, linesFrom_cons (Ne.symm hl.1), ih hl.2, List.reverse_cons, List.append_assoc]
    rfl

/-- A line without control characters ends at its line feed. -/
theorem linesFrom_line (hl : Json.Printable l) : linesFrom [] (l ++ '\n' :: r) = l :: linesFrom [] r := by
  have hfeed : '\n' ∉ l := fun h => absurd (hl _ h) (by decide)
  have hreturn : '\r' ∉ l := fun h => absurd (hl _ h) (by decide)
  rw [linesFrom_append hfeed, List.append_nil, linesFrom, if_pos rfl, List.reverse_reverse]
  intro l' heq
  exact absurd (List.mem_reverse.1 (heq ▸ List.mem_cons_self)) hreturn

theorem linesOf_lines {ls : List (List Char)} (h : ∀ l ∈ ls, Json.Printable l) :
    linesOf (ls.flatMap fun l => l ++ ['\n']) = ls := by
  induction ls with
  | nil => rfl
  | cons l ls ih =>
    have hrest : linesFrom [] (ls.flatMap fun l => l ++ ['\n']) = ls :=
      ih fun l' hl' => h l' (List.mem_cons_of_mem l hl')
    rw [List.flatMap_cons, List.append_assoc, List.singleton_append, linesOf, linesFrom_line (h l List.mem_cons_self),
      hrest]

/-- The lines of an emitter are those that its entries have been written on. -/
theorem lines_eq {es : List Entry} (h : m.written = (es.map Entry.line).reverse) :
    (m.content = es.flatMap fun e => Text.Utf8.encode e.line ++ [10]) ∧ m.lines = es.map fun e => e.line.toList := by
  have hcontent : m.content = es.flatMap fun e => Text.Utf8.encode e.line ++ [10] := by
    rw [Emitter.content, h, List.reverse_reverse, List.flatMap_map]
  have hencode : m.content =
      Text.Utf8.encode (String.ofList ((es.map fun e => e.line.toList).flatMap fun l => l ++ ['\n'])) := by
    rw [hcontent, Text.Utf8.encode, String.toList_ofList, Text.Utf8.encodeChars, List.flatMap_assoc, List.flatMap_map]
    simp [Text.Utf8.encode, Text.Utf8.encodeChars, Text.Utf8.encodeChar]
  refine ⟨hcontent, ?_⟩
  rw [Emitter.lines, hencode, Text.Utf8.decodeLossy_encode, String.toList_ofList]
  exact linesOf_lines fun l hl => by
    obtain ⟨e, -, rfl⟩ := List.mem_map.1 hl
    exact printable_line e

theorem stream_foldl :
    let m := cs.foldl Call.apply (.fresh run session)
    let es := entriesOf run session cs
    (m.content = es.flatMap fun e => Text.Utf8.encode e.line ++ [10]) ∧ m.lines = es.map fun e => e.line.toList :=
  lines_eq (by rw [foldl_apply])

theorem getElem_entriesOf {i : Nat} (h : i < cs.length) :
    (entriesOf run session cs)[i]? = some (cs[i].written run session (given (cs.take i))) := by
  unfold entriesOf
  rw [List.getElem?_mapIdx, List.getElem?_eq_getElem h]
  rfl

/-- `emit` answers with the trace id of the entry that it writes. -/
theorem Call.answer_eq {id : String} (h : id ∈ c.answer m) : (c.written m.runId m.session m.seq).traceId = id := by
  cases c with
  | emit => exact Option.some.inj h
  | entry | log => cases h

/-- **The stream of an emitter.**  Whatever is called, one line is written for each call, and it is that of the call's
entry.  An entry that brings a trace id is written as it is; the others are numbered in their order. -/
theorem stream_of_calls (run session : String) (cs : List Call) :
    let m := cs.foldl Call.apply (.fresh run session)
    let es := entriesOf run session cs
    (m.content = es.flatMap fun e => Text.Utf8.encode e.line ++ [10]) ∧
    (m.lines = es.map fun e => e.line.toList) ∧ m.lines.length = cs.length ∧
    (∀ i (h : i < cs.length), es[i]? = some (
      if cs[i].asked.traceId = "" then { cs[i].asked with traceId := traceId run session (given (cs.take i) + 1) }
      else cs[i].asked)) ∧
    (∀ i (h : i < cs.length), ∀ id ∈ cs[i].answer ((cs.take i).foldl Call.apply (.fresh run session)),
      es[i]?.map Entry.traceId = some id) ∧
    (givenIds run session cs =
      (List.range (given cs)).map fun j => run ++ "::" ++ session ++ "::" ++ Text.padded 3 (j + 1)) ∧
    (∀ j, Nat.ofDigitChars 10 (Text.padded 3 j).toList 0 = j ∧
      (Text.padded 3 j).toList.length = max 3 (Nat.toDigits 10 j).length) ∧
    (givenIds run session cs).Nodup := by
  intro m es
  obtain ⟨hcontent, hlines⟩ : _ ∧ m.lines = es.map fun e => e.line.toList := stream_foldl
  refine ⟨hcontent, hlines, ?_, fun i h => ?_, fun i h id hid => ?_, givenIds_eq,
    fun j => ⟨ofDigitChars_padded 3 j, length_padded 3 j⟩, ?_⟩
  · rw [hlines, List.length_map, length_entriesOf]
  · rw [getElem_entriesOf h, Call.written]
    simp [Call.isAutomatic]
  · rw [foldl_apply] at hid
    rw [getElem_entriesOf h, Option.map_some, Call.answer_eq hid]
  · rw [givenIds_eq]
    exact List.nodup_range.map fun j k h => Nat.succ.inj (traceId_inj.1 h)

end

end Overseer.Log
