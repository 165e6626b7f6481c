import Mathlib.Algebra.Group.Int.Defs
import Overseer.Json.Reader
import Overseer.Log.Validation
import Overseer.Proofs.TraceIds

/-!
# The schema of a line

The checks pass over a field that holds no text, and what they pass over is left to the decoding.
Together they accept a line if it is an object of the schema, but the decoding also takes an object with
the one member `name: null` for the name.

    validate line n = ok e        line is an object, and its members have the fields of the schema
    validate line n = error fs    otherwise; fs is not empty, and each of fs has the number n

Main statement: `accepts_schema`.
-/

namespace Overseer.Json

/-! ## Whole numbers that are read -/

/-- All whole numbers of a value have 64 bits, with or without sign. -/
inductive Sized : Value → Prop
  | null : Sized .null
  | bool (b : Bool) : Sized (.bool b)
  | int {i : Int} (low : -(Word.half64 : Int) ≤ i) (high : i < Word.size64) : Sized (.int i)
  | float (bits : UInt64) : Sized (.float bits)
  | text (s : String) : Sized (.text s)
  | array {items : List Value} (held : ∀ v ∈ items, Sized v) : Sized (.array items)
  | object {ms : List (String × Value)} (held : ∀ m ∈ ms, Sized m.2) : Sized (.object ms)

section

variable {n count : Nat} {negative : Bool} {e : Int} {s r : List Char} {v : Value} {acc : List (String × Value)}

theorem takeDigits_lt (h : n < Word.size64) : (takeDigits n count s).1 < Word.size64 := by
  fun_induction takeDigits n count s with
  | case1 => exact h
  | case2 n count c r hc ih =>
    rw [Bool.and_eq_true, decide_eq_true_eq] at hc
    exact ih hc.2
  | case3 => exact h

theorem sized_of_withFloat {b : Option UInt64} (h : withFloat b s = some (v, r)) : Sized v := by
  obtain ⟨bits, -, hbits⟩ := Option.map_eq_some_iff.1 h
  cases hbits
  exact .float bits

theorem sized_of_readExponent (h : readExponent negative n e s = some (v, r)) : Sized v := by
  unfold readExponent at h
  dsimp only at h
  split at h
  · cases h
  · split at h
    · split at h
      · exact sized_of_withFloat h
      · exact sized_of_withFloat (Option.ite_none_left_eq_some.1 h).2
    · cases h

theorem sized_of_readScaled (h : readScaled negative n e s = some (v, r)) : Sized v := by
  unfold readScaled at h
  split at h
  · exact sized_of_readExponent h
  · exact sized_of_readExponent h
  · exact sized_of_withFloat h

theorem sized_of_readFraction (h : readFraction negative n e s = some (v, r)) : Sized v := by
  unfold readFraction at h
  split at h
  · cases h
  · split at h
    · exact sized_of_readScaled h
    · cases h

theorem sized_of_readTail {dropped : Nat} (hn : n < Word.size64) (h : readTail negative n dropped s = some (v, r)) :
    Sized v := by
  unfold readTail at h
  split at h
  · exact sized_of_readFraction h
  · exact sized_of_readExponent h
  · exact sized_of_readExponent h
  · split at h
    · exact sized_of_withFloat h
    · split at h
      · cases h
        exact .int (by omega) (by exact_mod_cast hn)
      · split at h
        · exact sized_of_withFloat h
        · next hfits =>
          rw [not_or, Nat.not_lt] at hfits
          cases h
          exact .int (by omega) (by unfold Word.size64; omega)

theorem sized_of_readUnsigned (h : readUnsigned negative s = some (v, r)) : Sized v := by
  have hzero : 0 < Word.size64 := by decide
  unfold readUnsigned at h
  split at h
  · cases h
  · split at h
    · split at h
      · split at h
        · cases h
        · exact sized_of_readTail hzero h
      · exact sized_of_readTail hzero h
    · split at h
      · dsimp only at h
        exact sized_of_readTail (takeDigits_lt hzero) h
      · cases h

theorem sized_of_readWord {word : List Char} (hv : Sized v) {w : Value} (h : readWord word v s = some (w, r)) :
    Sized w := by
  obtain ⟨_, -, hw⟩ := Option.map_eq_some_iff.1 h
  cases hw
  exact hv

theorem sized_put {k : String} (hacc : ∀ m ∈ acc, Sized m.2) (hv : Sized v) : ∀ m ∈ put k v acc, Sized m.2 := by
  induction acc with
  | nil => simpa [put] using hv
  | cons p acc ih =>
    obtain ⟨hp, hrest⟩ := List.forall_mem_cons.1 hacc
    obtain ⟨l, w⟩ := p
    rw [put]
    split_ifs
    · exact List.forall_mem_cons.2 ⟨hv, hacc⟩
    · exact List.forall_mem_cons.2 ⟨hv, hrest⟩
    · exact List.forall_mem_cons.2 ⟨hp, ih hrest⟩

/-- By induction on the fuel, of which each item and each member takes one step. -/
theorem sized_of_fuel (fuel : Nat) :
    (∀ depth s v r, readValue fuel depth s = some (v, r) → Sized v) ∧
    (∀ depth acc s v r, (∀ w ∈ acc, Sized w) → readItems fuel depth acc s = some (v, r) → Sized v) ∧
    (∀ depth acc s v r, (∀ m ∈ acc, Sized m.2) → readMembers fuel depth acc s = some (v, r) → Sized v) := by
  induction fuel with
  | zero => simp [readValue, readItems, readMembers]
  | succ fuel ih =>
    obtain ⟨hvalue, hitems, hmembers⟩ := ih
    refine ⟨fun depth s v r h => ?_, fun depth acc s v r hacc h => ?_, fun depth acc s v r hacc h => ?_⟩
    · cases s with
      | nil => simp [readValue] at h
      | cons c s =>
        rw [readValue] at h
        split at h
        · obtain ⟨_, -, htext⟩ := Option.map_eq_some_iff.1 h
          cases htext
          exact .text _
        split at h
        · replace h := (Option.ite_none_left_eq_some.1 h).2
          split at h
          · cases h
            exact .array (List.forall_mem_nil _)
          · exact hitems _ _ _ _ _ (List.forall_mem_nil _) h
        split at h
        · replace h := (Option.ite_none_left_eq_some.1 h).2
          split at h
          · cases h
          · split at h
            · cases h
              exact .object (List.forall_mem_nil _)
            · exact hmembers _ _ _ _ _ (List.forall_mem_nil _) h
        split_ifs at h
        · exact sized_of_readUnsigned h
        · exact sized_of_readUnsigned h
        · exact sized_of_readWord (.bool true) h
        · exact sized_of_readWord (.bool false) h
        · exact sized_of_readWord .null h
    · rw [readItems] at h
      split at h
      · cases h
      · next w _ hw =>
        have hcons : ∀ u ∈ w :: acc, Sized u := List.forall_mem_cons.2 ⟨hvalue _ _ _ _ hw, hacc⟩
        split at h
        · exact hitems _ _ _ _ _ hcons h
        · cases h
          exact .array fun u hu => hcons u (List.mem_reverse.1 hu)
        · cases h
    · rw [readMembers.eq_def] at h
      dsimp only at h
      split at h
      · split at h
        · cases h
        · split at h
          · split at h
            · cases h
            · next hw =>
              have hput := fun k => sized_put (k := k) hacc (hvalue _ _ _ _ hw)
              split at h
              · exact hmembers _ _ _ _ _ (hput _) h
              · cases (Option.ite_none_right_eq_some.1 h).2
                exact .object (hput _)
              · cases h
          · cases h
      · cases h

end

theorem sized_read {s : String} {v : Value} (h : read s = some v) : Sized v := by
  rw [read, readChars] at h
  split at h
  · next w r hread =>
    cases (Option.ite_none_right_eq_some.1 h).2
    exact (sized_of_fuel _).1 _ _ _ _ hread
  · cases h

end Overseer.Json

namespace Overseer.Log

open Json (Value Sized)
open Json.Value (find?)

/-! ## The schema -/

/-- A text. -/
def Worded (v : Value) : Prop := ∃ s, v = .text s

/-- One of the names, as a text. -/
def Named (names : List String) (v : Value) : Prop := ∃ s ∈ names, v = .text s

/-- One of the names, as a text or as the key of an object that holds `null` under it and nothing else. -/
def Tagged (names : List String) (v : Value) : Prop := ∃ s ∈ names, v = .text s ∨ v = .object [(s, .null)]

/-- A whole number between two bounds, the upper one left out. -/
def Ranged (low high : Int) (v : Value) : Prop := ∃ i, v = .int i ∧ low ≤ i ∧ i < high

section

variable (m : List (String × Value)) (field : String) (p : Value → Prop)

/-- A field that has to be there. -/
def Requires : Prop := ∃ v, find? field m = some v ∧ p v

/-- A field that may be absent or `null`. -/
def Allows : Prop := ∀ v, find? field m = some v → v = .null ∨ p v

end

/-- What the members of a line have to be, where `named` says how a name is given. -/
structure Schema (named : List String → Value → Prop) (m : List (String × Value)) : Prop where
  timestamp : Requires m "timestamp" Worded
  traceId : ∃ s run session seq, find? "trace_id" m = some (.text s) ∧ Parts s.toList [run, session, seq]
  level : Requires m "level" (named ["trace", "debug", "info", "warn", "error"])
  event : Requires m "event" Worded
  stream : Allows m "stream" (named ["stdin", "stdout", "stderr"])
  pid : Allows m "pid" (Ranged (-2 ^ 31) (2 ^ 31))
  exitCode : Allows m "exit_code" (Ranged (-2 ^ 31) (2 ^ 31))
  signal : Allows m "signal" (Ranged 1 65)
  exclusive : find? "exit_code" m = none ∨ find? "signal" m = none
  bytes : Allows m "bytes" (Ranged 0 (2 ^ 64))
  durationMs : Allows m "duration_ms" (Ranged 0 (2 ^ 64))
  outcome : Allows m "outcome" (named ["pass", "fail", "timeout", "error"])
  symbol : Allows m "symbol" Worded

/-- No field for a name holds an object. -/
def Untagged (m : List (String × Value)) : Prop :=
  ∀ field ∈ ["level", "stream", "outcome"], ∀ ms, find? field m ≠ some (.object ms)

section

variable {line field : String} {number : Nat} {m : List (String × Value)} {p q : Value → Prop}
  {names : List String} {v : Value}

theorem Requires.imp (h : Requires m field p) (hpq : ∀ v, find? field m = some v → p v → q v) :
    Requires m field q :=
  let ⟨v, hv, hp⟩ := h
  ⟨v, hv, hpq v hv hp⟩

theorem Allows.imp (h : Allows m field p) (hpq : ∀ v, find? field m = some v → p v → q v) : Allows m field q :=
  fun v hv => (h v hv).imp_right (hpq v hv)

theorem Schema.imp {named named' : List String → Value → Prop} (h : Schema named m)
    (himp : ∀ field ∈ ["level", "stream", "outcome"], ∀ names v, find? field m = some v → named names v →
      named' names v) :
    Schema named' m :=
  { h with
    level := h.level.imp (himp "level" (by simp) _)
    stream := h.stream.imp (himp "stream" (by simp) _)
    outcome := h.outcome.imp (himp "outcome" (by simp) _) }

theorem Named.tagged (h : Named names v) : Tagged names v :=
  let ⟨s, hs, hv⟩ := h
  ⟨s, hs, .inl hv⟩

theorem schema_named_iff (h : Untagged m) : Schema Tagged m ↔ Schema Named m := by
  refine ⟨fun hm => hm.imp ?_, fun hm => hm.imp fun _ _ _ _ _ => Named.tagged⟩
  rintro field hfield names v hv ⟨s, hs, rfl | rfl⟩
  · exact ⟨s, hs, rfl⟩
  · exact absurd hv (h field hfield _)

/-! ## Decoding -/

theorem isSome_optional {α : Type} {dec : Value → Option α} :
    (optional m field dec).isSome ↔ Allows m field fun v => (dec v).isSome := by
  unfold optional Allows
  split
  · simp_all
  · simp_all
  · next v hnull hv => simp_all

theorem isSome_bind_iff {α β : Type} {o : Option α} {f : α → Option β} :
    (o.bind f).isSome ↔ ∃ a, o = some a ∧ (f a).isSome := by
  cases o <;> simp

theorem isSome_asText? : v.asText?.isSome ↔ Worded v := by
  cases v <;> simp [Value.asText?, Worded]

theorem isSome_textOf : (textOf m field).isSome ↔ Requires m field Worded := by
  simp only [textOf, isSome_bind_iff, isSome_asText?, Requires]

theorem isSome_int32? : (int32? v).isSome ↔ Ranged (-2 ^ 31) (2 ^ 31) v := by
  cases v <;> simp [int32?, Ranged, fitsInt32_iff]

theorem isSome_nat64? (hv : Sized v) : (nat64? v).isSome ↔ Ranged 0 (2 ^ 64) v := by
  cases hv with
  | @int i low high =>
    unfold Word.size64 at high
    have hlow : (0 ≤ i) ↔ ∃ j, Value.int i = .int j ∧ 0 ≤ j ∧ j < 2 ^ 64 :=
      ⟨fun h => ⟨i, rfl, h, high⟩, by rintro ⟨j, ⟨⟩, h, -⟩; exact h⟩
    unfold Ranged
    rw [← hlow]
    simp [nat64?]
  | _ => simp [nat64?, Ranged]

theorem nameOf_eq_some {s : String} : nameOf v = some s ↔ v = .text s ∨ v = .object [(s, .null)] := by
  unfold nameOf
  split <;> simp_all

/-- What is found by its name. -/
theorem isSome_named {α : Type} (l : List α) (name : α → String) :
    ((nameOf v).bind fun s => l.find? fun a => name a == s).isSome ↔ Tagged (l.map name) v := by
  have hfind : ∀ s, (l.find? fun a => name a == s).isSome ↔ s ∈ l.map name := by simp [List.find?_isSome]
  simp only [isSome_bind_iff, nameOf_eq_some, hfind, Tagged, and_comm]

/-- A step behind which all is decoded in the same way. -/
theorem isSome_bind_and {α β : Type} {o : Option α} {f : α → Option β} {c : Prop}
    (h : ∀ a, (f a).isSome ↔ c) :
    (o.bind f).isSome ↔ o.isSome ∧ c := by
  cases o <;> simp [h]

theorem sized_of_find? (hm : Sized (.object m)) (hv : find? field m = some v) : Sized v := by
  obtain ⟨⟩ := hm
  next held =>
    induction m with
    | nil => cases hv
    | cons p m ih =>
      obtain ⟨hp, hrest⟩ := List.forall_mem_cons.1 held
      rw [Value.find?_cons] at hv
      split at hv
      · cases hv
        exact hp
      · exact ih hv hrest

theorem allows_congr (h : ∀ v, find? field m = some v → (p v ↔ q v)) : Allows m field p ↔ Allows m field q :=
  ⟨fun ha => ha.imp fun v hv => (h v hv).1, fun ha => ha.imp fun v hv => (h v hv).2⟩

theorem isSome_decode (hm : Sized (.object m)) : (decode m).isSome ↔
    Requires m "timestamp" Worded ∧ Requires m "trace_id" Worded ∧
    Requires m "level" (Tagged ["trace", "debug", "info", "warn", "error"]) ∧ Requires m "event" Worded ∧
    Allows m "stream" (Tagged ["stdin", "stdout", "stderr"]) ∧ Allows m "pid" (Ranged (-2 ^ 31) (2 ^ 31)) ∧
    Allows m "exit_code" (Ranged (-2 ^ 31) (2 ^ 31)) ∧ Allows m "signal" (Ranged (-2 ^ 31) (2 ^ 31)) ∧
    Allows m "bytes" (Ranged 0 (2 ^ 64)) ∧ Allows m "duration_ms" (Ranged 0 (2 ^ 64)) ∧
    Allows m "outcome" (Tagged ["pass", "fail", "timeout", "error"]) ∧ Allows m "symbol" Worded := by
  have hnat : ∀ field, Allows m field (fun v => (nat64? v).isSome) ↔ Allows m field (Ranged 0 (2 ^ 64)) :=
    fun field => allows_congr fun v hv => isSome_nat64? (sized_of_find? hm hv)
  have hlevel : (((find? "level" m).bind nameOf).bind Severity.ofName?).isSome ↔
      Requires m "level" (Tagged ["trace", "debug", "info", "warn", "error"]) := by
    rw [Option.bind_assoc, isSome_bind_iff]
    exact exists_congr fun v => and_congr_right fun _ =>
      isSome_named [.trace, .debug, .info, .warn, .error] Severity.name
  have hstream : ∀ v, ((nameOf v).bind StreamKind.ofName?).isSome ↔ Tagged ["stdin", "stdout", "stderr"] v :=
    fun v => isSome_named StreamKind.all StreamKind.name
  have houtcome : ∀ v, ((nameOf v).bind Run.Outcome.ofName?).isSome ↔
      Tagged ["pass", "fail", "timeout", "error"] v := fun v =>
    isSome_named Run.Outcome.all Run.Outcome.name
  have hdetails : Allows m "details" fun v => (some v).isSome := fun v _ => .inr rfl
  unfold decode
  simp only [bind]
  refine Iff.trans (isSome_bind_and fun _ => isSome_bind_and fun _ => isSome_bind_and fun _ =>
    isSome_bind_and fun _ =>
    isSome_bind_and fun _ => isSome_bind_and fun _ => isSome_bind_and fun _ => isSome_bind_and fun _ =>
    isSome_bind_and fun _ => isSome_bind_and fun _ => isSome_bind_and fun _ => isSome_bind_and fun _ =>
    isSome_bind_and fun _ => iff_of_true rfl trivial) ?_
  simp only [isSome_textOf, isSome_optional, hlevel, hstream, houtcome, hnat, isSome_int32?, isSome_asText?, hdetails,
    and_true]

/-! ## Checks -/

theorem Requires.allows (h : Requires m field p) : Allows m field p := by
  obtain ⟨v, hv, hp⟩ := h
  rintro w hw
  cases hv.symm.trans hw
  exact .inr hp

/-- The check of a name finds no fault with what is decoded. -/
theorem checkName_eq_nil (h : Allows m field (Tagged names)) (fault : String → Defect) :
    checkName m field names fault = [] := by
  unfold checkName
  cases hv : find? field m with
  | none => rfl
  | some v =>
    rcases h v hv with rfl | ⟨s, hs, rfl | rfl⟩
    · rfl
    · simp [Value.asText?, hs]
    · rfl

theorem missingFields_eq_nil (htimestamp : Requires m "timestamp" p) (htraceId : (find? "trace_id" m).isSome)
    (hlevel : Requires m "level" q) (hevent : Requires m "event" p) : missingFields m = [] := by
  obtain ⟨_, htimestamp, -⟩ := htimestamp
  obtain ⟨_, hlevel, -⟩ := hlevel
  obtain ⟨_, hevent, -⟩ := hevent
  obtain ⟨_, htraceId⟩ := Option.isSome_iff_exists.1 htraceId
  simp [missingFields, requiredFields, htimestamp, htraceId, hlevel, hevent]

/-- A number beyond 63 bits is passed over. -/
theorem checkSignal_eq_nil : checkSignal m = [] ↔
    ∀ i, find? "signal" m = some (.int i) → i < Word.half64 → 1 ≤ i ∧ i ≤ 64 := by
  unfold checkSignal
  cases hv : find? "signal" m with
  | none => simp
  | some v =>
    cases v with
    | int i =>
      by_cases hi : i < Word.half64
      · simp [Value.asInt64?, hi, Signal.isValid]
      · simp [Value.asInt64?, hi]
    | _ => simp [Value.asInt64?]

theorem checkExclusive_eq_nil : checkExclusive m = [] ↔ find? "exit_code" m = none ∨ find? "signal" m = none := by
  unfold checkExclusive
  cases find? "exit_code" m <;> cases find? "signal" m <;> simp

theorem checkTraceId_eq_nil : checkTraceId m = [] ↔
    ∀ s, find? "trace_id" m = some (.text s) → ∃ run session seq, Parts s.toList [run, session, seq] := by
  have hthree : ∀ s : List Char, colonParts s = 3 ↔ ∃ run session seq, Parts s [run, session, seq] := fun s => by
    simp only [colonParts_eq_iff, List.length_eq_three]
    constructor
    · rintro ⟨_, hparts, a, b, c, rfl⟩
      exact ⟨a, b, c, hparts⟩
    · rintro ⟨a, b, c, hparts⟩
      exact ⟨_, hparts, a, b, c, rfl⟩
  unfold checkTraceId
  cases hv : find? "trace_id" m with
  | none => simp
  | some v => cases v <;> simp [Value.asText?, hthree]

/-- Checks and decoding together. -/
theorem schema_iff (hm : Sized (.object m)) : defects m = [] ∧ (decode m).isSome ↔ Schema Tagged m := by
  simp only [defects, List.append_eq_nil_iff, isSome_decode hm, checkSignal_eq_nil, checkExclusive_eq_nil,
    checkTraceId_eq_nil]
  constructor
  · rintro ⟨⟨⟨⟨-, hsignal⟩, hexclusive⟩, htrace⟩, htimestamp, ⟨v, hv, s, rfl⟩, hlevel, hevent,
      hstream, hpid, hexit, hint,
      hbytes, hduration, houtcome, hsymbol⟩
    obtain ⟨run, session, seq, hparts⟩ := htrace s hv
    refine ⟨htimestamp, ⟨s, run, session, seq, hv, hparts⟩, hlevel, hevent, hstream, hpid, hexit,
      hint.imp ?_, hexclusive,
      hbytes, hduration, houtcome, hsymbol⟩
    rintro _ hfind ⟨i, rfl, -, hi⟩
    have hvalid := hsignal i hfind (by unfold Word.half64; omega)
    exact ⟨i, rfl, by omega, by omega⟩
  · intro h
    obtain ⟨s, run, session, seq, hv, hparts⟩ := h.traceId
    refine ⟨⟨⟨⟨⟨⟨⟨?_, ?_⟩, ?_⟩, ?_⟩, ?_⟩, h.exclusive⟩, ?_⟩, h.timestamp, ⟨_, hv, s, rfl⟩,
      h.level, h.event, h.stream,
      h.pid, h.exitCode, ?_, h.bytes, h.durationMs, h.outcome, h.symbol⟩
    · exact missingFields_eq_nil h.timestamp (by simp [hv]) h.level h.event
    · exact checkName_eq_nil h.level.allows _
    · exact checkName_eq_nil h.outcome _
    · exact checkName_eq_nil h.stream _
    · intro i hi _
      obtain hnull | ⟨_, ⟨⟩, hlow, hhigh⟩ := h.signal _ hi
      · cases hnull
      · exact ⟨hlow, by omega⟩
    · intro t ht
      cases hv.symm.trans ht
      exact ⟨run, session, seq, hparts⟩
    · refine h.signal.imp ?_
      rintro _ _ ⟨i, rfl, hlow, hhigh⟩
      exact ⟨i, rfl, by omega, by omega⟩

/-! ## Lines -/

theorem validate_ok_iff : (∃ e, validate line number = .ok e) ↔
    ∃ m, Json.read line = some (.object m) ∧ defects m = [] ∧ (decode m).isSome := by
  unfold validate
  split
  · next hread => simp [hread]
  · next m hread =>
    split
    · next hnone =>
      split
      · next e he => simp [hread, hnone, he]
      · next he => simp [hread, hnone, he]
    · next hsome => simpa [hread] using fun hnone => absurd hnone hsome
  · next hread _ => simp_all

/-- A line that is not accepted has a fault. -/
theorem faults_ne_nil {fs : List Fault} (h : validate line number = .error fs) : fs ≠ [] := by
  unfold validate at h
  split at h
  · cases h; simp
  · split at h
    · split at h <;> cases h; simp
    · next hsome => cases h; simpa using hsome
  · cases h; simp

/-- **The schema of a line.**  A line is accepted just if it is an object of the schema, where a name may also
stand as the key of an object; if no name does, just if it is an object of the plain schema.  All else has
faults, and they are faults of this line. -/
theorem accepts_schema (line : String) (number : Nat) :
    ((∃ e, validate line number = .ok e) ↔ ∃ m, Json.read line = some (.object m) ∧ Schema Tagged m) ∧
    ((∀ m, Json.read line = some (.object m) → Untagged m) →
      ((∃ e, validate line number = .ok e) ↔ ∃ m, Json.read line = some (.object m) ∧ Schema Named m)) ∧
    ((¬ ∃ e, validate line number = .ok e) →
      ∃ fs, validate line number = .error fs ∧ fs ≠ [] ∧ ∀ f ∈ fs, f.line = number) := by
  have htagged : (∃ e, validate line number = .ok e) ↔ ∃ m, Json.read line = some (.object m) ∧
    Schema Tagged m := by
    rw [validate_ok_iff]
    exact exists_congr fun m => and_congr_right fun hread => schema_iff (Json.sized_read hread)
  refine ⟨htagged, fun huntagged => ?_, fun hrefused => ?_⟩
  · rw [htagged]
    exact exists_congr fun m => and_congr_right fun hread => schema_named_iff (huntagged m hread)
  · cases hfs : validate line number with
    | ok e => exact absurd ⟨e, hfs⟩ hrefused
    | error fs => exact ⟨fs, rfl, faults_ne_nil hfs, fun f hf => (fault_cases hfs hf).1⟩

/-- Members at the bounds of the schema. -/
def bounds : List (String × Value) :=
  [("details", .array []), ("duration_ms", .int 18446744073709551615), ("event", .text ""), ("level", .text "info"),
   ("outcome", .null), ("pid", .int (-2147483648)), ("signal", .int 64), ("timestamp", .text "t"),
   ("trace_id", .text "run::s::001")]

theorem read_bounds : Json.read (Value.object bounds).write = some (.object bounds) := by
  have hstorable : Json.Storable Json.maxDepth (.object bounds) := by
    refine .object (by decide) ?_
    simp only [bounds, List.forall_mem_cons]
    exact ⟨.array nofun, .int _ (by decide) (by decide), .text _ _, .text _ _, .null _,
      .int _ (by decide) (by decide),
      .int _ (by decide) (by decide), .text _ _, .text _ _, nofun⟩
  rw [Json.read_write, hstorable.reread_eq]

theorem schema_bounds : Schema Named bounds where
  timestamp := ⟨_, rfl, _, rfl⟩
  traceId :=
    have hparts : Parts (['r', 'u', 'n'] ++ separator ++ (['s'] ++ separator ++ ['0', '0', '1'])) _ :=
      .cons (by decide) (.cons (by decide) (.last (by decide)))
    ⟨_, _, _, _, rfl, hparts⟩
  level := ⟨_, rfl, _, by simp, rfl⟩
  event := ⟨_, rfl, _, rfl⟩
  stream := nofun
  pid := by rintro _ ⟨⟩; exact .inr ⟨_, rfl, by decide, by decide⟩
  exitCode := nofun
  signal := by rintro _ ⟨⟩; exact .inr ⟨_, rfl, by decide, by decide⟩
  exclusive := .inl rfl
  bytes := nofun
  durationMs := by rintro _ ⟨⟩; exact .inr ⟨_, rfl, by decide, by decide⟩
  outcome := by rintro _ ⟨⟩; exact .inl rfl
  symbol := nofun

theorem untagged_bounds : Untagged bounds := by
  intro field hfield ms
  simp only [List.mem_cons, List.not_mem_nil, or_false] at hfield
  rcases hfield with rfl | rfl | rfl <;> exact nofun

theorem accepts_bounds : Untagged bounds ∧ ∃ e, validate (Value.object bounds).write 7 = .ok e := by
  refine ⟨untagged_bounds, ((accepts_schema _ 7).2.1 fun m hread => ?_).2 ⟨bounds, read_bounds, schema_bounds⟩⟩
  cases read_bounds.symm.trans hread
  exact untagged_bounds

/-- Members that give the level as the key of an object. -/
def tagged : List (String × Value) :=
  [("event", .text "x"), ("level", .object [("info", .null)]), ("timestamp", .text "t"),
    ("trace_id", .text "a::b::1")]

theorem read_tagged : Json.read (Value.object tagged).write = some (.object tagged) := by
  have hstorable : Json.Storable Json.maxDepth (.object tagged) := by
    refine .object (by decide) ?_
    simp only [tagged, List.forall_mem_cons]
    exact ⟨.text _ _, .object (by decide) (List.forall_mem_singleton.2 (.null _)), .text _ _, .text _ _, nofun⟩
  rw [Json.read_write, hstorable.reread_eq]

/-- A line is accepted though its level is no text. -/
theorem accepts_tagged_level : (∃ e, validate (Value.object tagged).write 1 = .ok e) ∧
    ¬ ∃ m, Json.read (Value.object tagged).write = some (.object m) ∧ Schema Named m := by
  refine ⟨validate_ok_iff.2 ⟨tagged, read_tagged, rfl, rfl⟩, ?_⟩
  rintro ⟨m, hread, hschema⟩
  cases read_tagged.symm.trans hread
  obtain ⟨_, ⟨⟩, s, -, hs⟩ := hschema.level
  cases hs

end

end Overseer.Log
