import Overseer.Log.Entry
import Overseer.Proofs.Separators
import Overseer.Proofs.Storing

/-!
# Entries there and back

An entry is written on one line, and the line is found to be without fault and is decoded into the entry.  The checks
look the fields up in the members that have been read; an absent field has no member.

    validate e.line n = ok e        e has a trace id of three parts and no code beside a signal

Main statements: `holds_members_fields`, `validate_line`.
-/

namespace Overseer.Json.Value

/-! ## Looking up members -/

section

variable {α : Type} {k l : String} {v : Value} {a b : List (String × Value)}

theorem find?_cons : find? k ((l, v) :: a) = if l = k then some v else find? k a := rfl

theorem find?_append : find? k (a ++ b) = (find? k a).or (find? k b) := by
  induction a with
  | nil => simp [find?]
  | cons p a ih => rw [List.cons_append, find?_cons, find?_cons, ih]; split <;> simp

theorem find?_put : find? k (put l v a) = if l = k then some v else find? k a := by
  induction a with
  | nil => rfl
  | cons p a ih =>
    obtain ⟨q, w⟩ := p
    rw [put]
    split
    · rfl
    · split
      · next h => subst h; rw [find?_cons, find?_cons]; split <;> rfl
      · next h =>
        rw [find?_cons, find?_cons, ih]
        split <;> split <;> simp_all

/-- Of two members with one key the second counts. -/
theorem find?_members : find? k (members a) = find? k a.reverse := by
  have hfold : ∀ acc, find? k (a.foldl (fun m kv => put kv.1 kv.2 m) acc) = (find? k a.reverse).or (find? k acc) := by
    induction a with
    | nil => intro acc; simp [find?]
    | cons p a ih =>
      intro acc
      rw [List.foldl_cons, ih, find?_put, List.reverse_cons, find?_append, find?_cons, Option.or_assoc]
      split <;> simp [find?]
  exact (hfold []).trans (by simp [find?])

/-- A field that may be absent. -/
theorem find?_optional (o : Option α) (f : α → Value) :
    find? k (o.map fun x => (l, f x)).toList.reverse = if l = k then o.map f else none := by
  cases o <;> simp [find?]

end

end Overseer.Json.Value

namespace Overseer.Log

open Json (Value Storable)
open Json.Value (find?)

/-! ## Fields -/

/-- The members of an object are the fields of an entry. -/
structure Holds (m : List (String × Value)) (e : Entry) : Prop where
  timestamp : find? "timestamp" m = some (.text e.timestamp)
  traceId : find? "trace_id" m = some (.text e.traceId)
  level : find? "level" m = some (.text e.level.name)
  event : find? "event" m = some (.text e.event)
  stream : find? "stream" m = e.stream.map fun s => .text s.name
  pid : find? "pid" m = e.pid.map .int
  exitCode : find? "exit_code" m = e.exitCode.map .int
  signal : find? "signal" m = e.signal.map .int
  bytes : find? "bytes" m = e.bytes.map .ofNat
  durationMs : find? "duration_ms" m = e.durationMs.map .ofNat
  outcome : find? "outcome" m = e.outcome.map fun o => .text o.name
  symbol : find? "symbol" m = e.symbol.map .text
  details : find? "details" m = e.details

theorem holds_members_fields (e : Entry) : Holds (Json.members e.fields) e := by
  have hdetails : ∀ k, find? k (e.details.map fun v => ("details", v)).toList.reverse =
      if "details" = k then e.details else none := fun k => by
    rw [Value.find?_optional e.details fun v => v, Option.map_id']
  constructor <;>
    simp [Value.find?_members, Entry.fields, Value.find?_append, Value.find?_optional, hdetails, Value.find?]

/-! ## Checks -/

section

variable {m : List (String × Value)} {e : Entry}

/-- The names that an entry is written with are known to the checks. -/
theorem Holds.defects_eq (h : Holds m e) : defects m = checkSignal m ++ checkExclusive m ++ checkTraceId m := by
  have hmissing : missingFields m = [] := by
    simp [missingFields, requiredFields, h.timestamp, h.traceId, h.level, h.event]
  have hlevel : checkName m "level" levelNames .badLevel = [] := by
    unfold checkName
    rw [h.level]
    cases e.level <;> rfl
  have houtcome : checkName m "outcome" (Run.Outcome.all.map Run.Outcome.name) .badOutcome = [] := by
    unfold checkName
    rw [h.outcome]
    rcases e.outcome with _ | o
    · rfl
    · cases o <;> rfl
  have hstream : checkName m "stream" (StreamKind.all.map StreamKind.name) .badStream = [] := by
    unfold checkName
    rw [h.stream]
    rcases e.stream with _ | s
    · rfl
    · cases s <;> rfl
  rw [defects, hmissing, hlevel, houtcome, hstream]
  rfl

/-- An entry that may be written: its numbers fit their words, its details are a value without floats that leaves room
for the brackets around it, and it has ended in one way at most. -/
structure Entry.Recordable (e : Entry) : Prop where
  pid : ∀ n ∈ e.pid, Word.fitsInt32 n = true
  exitCode : ∀ n ∈ e.exitCode, Word.fitsInt32 n = true
  signal : ∀ n ∈ e.signal, 1 ≤ n ∧ n ≤ 64
  exclusive : e.exitCode = none ∨ e.signal = none
  bytes : ∀ n ∈ e.bytes, n < Word.size64
  durationMs : ∀ n ∈ e.durationMs, n < Word.size64
  details : ∀ v ∈ e.details, v ≠ .null ∧ Storable (Json.maxDepth - 1) v

theorem fitsInt32_iff {i : Int} : Word.fitsInt32 i = true ↔ -2147483648 ≤ i ∧ i < 2147483648 := by
  rw [Word.fitsInt32, Bool.and_eq_true, decide_eq_true_eq, decide_eq_true_eq]
  rfl

theorem Entry.Recordable.fits_signal (h : e.Recordable) {n : Int} (hn : n ∈ e.signal) : Word.fitsInt32 n = true := by
  have hsignal := h.signal n hn
  exact fitsInt32_iff.2 (by omega)

/-- An entry all of whose numbers fit their words, whatever they mean. -/
structure Entry.Bounded (e : Entry) : Prop where
  pid : ∀ n ∈ e.pid, Word.fitsInt32 n = true
  exitCode : ∀ n ∈ e.exitCode, Word.fitsInt32 n = true
  signal : ∀ n ∈ e.signal, Word.fitsInt32 n = true
  bytes : ∀ n ∈ e.bytes, n < Word.size64
  durationMs : ∀ n ∈ e.durationMs, n < Word.size64
  details : ∀ v ∈ e.details, Storable (Json.maxDepth - 1) v

theorem Entry.Recordable.bounded (h : e.Recordable) : e.Bounded :=
  ⟨h.pid, h.exitCode, fun _ => h.fits_signal, h.bytes, h.durationMs, fun v hv => (h.details v hv).2⟩

theorem Holds.defects_of_recordable (h : Holds m e) (hrec : e.Recordable) :
    defects m = if colonParts e.traceId.toList = 3 then [] else [.badTraceId e.traceId] := by
  have hsignal : checkSignal m = [] := by
    unfold checkSignal
    rw [h.signal]
    cases hs : e.signal with
    | none => rfl
    | some n =>
      have hn := hrec.signal n hs
      have hfits : n < Word.half64 := by unfold Word.half64; omega
      simp [Value.asInt64?, hfits, Signal.isValid, hn]
  have hexclusive : checkExclusive m = [] := by
    unfold checkExclusive
    rw [h.exitCode, h.signal]
    rcases hrec.exclusive with hnone | hnone <;> simp [hnone]
  rw [h.defects_eq, hsignal, hexclusive, checkTraceId, h.traceId]
  rfl

/-! ## Decoding -/

theorem optional_eq {α : Type} {field : String} {o : Option α} (dec : Value → Option α) (enc : α → Value)
    (hfind : find? field m = o.map enc) (hdec : ∀ a ∈ o, enc a ≠ .null ∧ dec (enc a) = some a) :
    optional m field dec = some o := by
  unfold optional
  rw [hfind]
  cases o with
  | none => rfl
  | some a =>
    obtain ⟨hnull, ha⟩ := hdec a rfl
    rw [Option.map_some]
    split
    · next heq => cases heq
    · next heq => exact absurd (Option.some.inj heq) hnull
    · next v _ heq => rw [← Option.some.inj heq, ha, Option.map_some]

theorem Holds.decode_eq (h : Holds m e) (hrec : e.Recordable) : decode m = some e := by
  have hstream := optional_eq (fun v => (nameOf v).bind StreamKind.ofName?) _ h.stream
    fun s _ => ⟨nofun, by cases s <;> rfl⟩
  have hpid := optional_eq int32? _ h.pid fun n hn => ⟨nofun, by simp [int32?, hrec.pid n hn]⟩
  have hexitCode := optional_eq int32? _ h.exitCode fun n hn => ⟨nofun, by simp [int32?, hrec.exitCode n hn]⟩
  have hsignal := optional_eq int32? _ h.signal fun n hn => ⟨nofun, by simp [int32?, hrec.fits_signal hn]⟩
  have hbytes := optional_eq nat64? _ h.bytes fun n _ => ⟨nofun, by simp [nat64?, Value.ofNat]⟩
  have hdurationMs := optional_eq nat64? _ h.durationMs fun n _ => ⟨nofun, by simp [nat64?, Value.ofNat]⟩
  have houtcome := optional_eq (fun v => (nameOf v).bind Run.Outcome.ofName?) _ h.outcome
    fun o _ => ⟨nofun, by cases o <;> rfl⟩
  have hsymbol := optional_eq Value.asText? _ h.symbol fun s _ => ⟨nofun, rfl⟩
  have hdetails := optional_eq some (fun v => v) (by rw [h.details, Option.map_id'])
    fun v hv => ⟨(hrec.details v hv).1, rfl⟩
  have hlevel : ((find? "level" m).bind nameOf).bind Severity.ofName? = some e.level := by
    rw [h.level]
    exact Severity.ofName?_name e.level
  unfold decode textOf
  rw [h.timestamp, h.traceId, hlevel, h.event, hstream, hpid, hexitCode, hsignal, hbytes, hdurationMs,
    houtcome, hsymbol,
    hdetails]
  rfl

/-! ## There and back -/

theorem storable_int32 {depth : Nat} {i : Int} (h : Word.fitsInt32 i = true) : Storable depth (.int i) := by
  rw [fitsInt32_iff] at h
  exact .int depth (by unfold Word.half64; omega) (by unfold Word.size64; omega)

theorem storable_nat64 {n depth : Nat} (h : n < Word.size64) : Storable depth (.ofNat n) :=
  .int depth (by unfold Word.half64; omega) (by omega)

theorem forall_mem_optional {α β : Type} {p : β → Prop} (o : Option α) (f : α → β) :
    (∀ x ∈ (o.map f).toList, p x) ↔ ∀ a ∈ o, p (f a) := by
  cases o <;> simp

theorem reread_fields (h : e.Bounded) :
    (Value.object e.fields).reread Json.maxDepth = some (.object (Json.members e.fields)) := by
  have hheld : ∀ f ∈ e.fields, Storable (Json.maxDepth - 1) f.2 := by
    simp only [Entry.fields, List.forall_mem_append, List.forall_mem_cons, forall_mem_optional, and_assoc]
    exact ⟨.text _ _, .text _ _, .text _ _, .text _ _, nofun, fun s _ => .text _ _,
      fun n hn => storable_int32 (h.pid n hn), fun n hn => storable_int32 (h.exitCode n hn),
      fun n hn => storable_int32 (h.signal n hn), fun n hn => storable_nat64 (h.bytes n hn),
      fun n hn => storable_nat64 (h.durationMs n hn), fun o _ => .text _ _, fun s _ => .text _ _, h.details⟩
  rw [Value.reread, if_neg (by decide), Json.rereadMembers_eq fun f hf => (hheld f hf).reread_eq]
  rfl

theorem printable_line (e : Entry) : Json.Printable e.line.toList := by
  rw [Entry.line, Value.write, String.toList_ofList]
  exact Json.printable_chars _

/-- The line of an entry is decoded into the entry, unless its trace id has the wrong number of parts. -/
theorem validate_eq (hrec : e.Recordable) (number : Nat) : validate e.line number =
    if colonParts e.traceId.toList = 3 then .ok e else .error [⟨number, .badTraceId e.traceId⟩] := by
  have hholds := holds_members_fields e
  unfold validate Entry.line
  rw [Json.read_write, reread_fields hrec.bounded]
  dsimp only
  rw [hholds.defects_of_recordable hrec, hholds.decode_eq hrec]
  by_cases hparts : colonParts e.traceId.toList = 3
  · rw [if_pos hparts, if_pos hparts]
  · rw [if_neg hparts, if_neg hparts]
    rfl

/-- **An entry survives.**  It is written on one line, and the line, whatever its number, is found without fault and
is decoded into the entry. -/
theorem validate_line (hrec : e.Recordable) (htrace : ∃ run session seq, Parts e.traceId.toList [run, session, seq]) :
    (∀ c ∈ e.line.toList, 32 ≤ c.toNat) ∧ ∀ number, validate e.line number = .ok e := by
  refine ⟨printable_line e, fun number => ?_⟩
  obtain ⟨run, session, seq, hparts⟩ := htrace
  have hthree : colonParts e.traceId.toList = 3 := colonParts_eq_iff.2 ⟨_, hparts, rfl⟩
  rw [validate_eq hrec, if_pos hthree]

/-- Every kind of value and of character, floats apart. -/
def nested : Value :=
  .object [("a\\b", .array [.null, .bool true, .int (-9223372036854775808)]),
    ("é\n", .object [("", .text "\u0001/\u2028")])]

theorem storable_nested (n : Nat) : Storable (n + 2) nested := by
  refine .object (by decide) ?_
  simp only [List.forall_mem_cons]
  refine ⟨.array ?_, .object (by decide) ?_, nofun⟩ <;> simp only [List.forall_mem_cons]
  · exact ⟨.null _, .bool _ _, .int _ (by decide) (by decide), nofun⟩
  · exact ⟨.text _ _, nofun⟩

/-- A child that has died of a signal. -/
def killed : Entry :=
  { Entry.make "1970-01-01T00:00:00.000Z" "run::s::001" .warn "a \"quoted\"\tevent" with
    stream := some .stderr
    pid := some 4001
    signal := some 9
    bytes := some 18446744073709551615
    details := some nested }

theorem validate_killed : (∀ c ∈ killed.line.toList, 32 ≤ c.toNat) ∧ validate killed.line 7 = .ok killed :=
  have hparts : Parts (['r', 'u', 'n'] ++ separator ++ (['s'] ++ separator ++ ['0', '0', '1']))
      [['r', 'u', 'n'], ['s'], ['0', '0', '1']] :=
    .cons (by decide) (.cons (by decide) (.last (by decide)))
  have hrec : killed.Recordable :=
    { pid := by simp [killed]; decide
      exitCode := nofun
      signal := by simp [killed]
      exclusive := .inl rfl
      bytes := by simp [killed]; decide
      durationMs := nofun
      details := by rintro v ⟨⟩; exact ⟨nofun, storable_nested _⟩ }
  have hkept := validate_line hrec ⟨_, _, _, hparts⟩
  ⟨hkept.1, hkept.2 7⟩

end

end Overseer.Log
