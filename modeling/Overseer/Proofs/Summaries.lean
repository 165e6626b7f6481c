import Overseer.Proofs.TraceIds

/-!
# Summaries of runs, written and checked

The summary of a run has its numbers from the report, and the end of the child from its wait status.
The seven low bits of a status hold a signal up to 126, while the check of a line knows the signals up
to 64.

    line of the summary   is decoded into the summary       no signal, or a signal up to 64
                          is refused for its signal         a signal from 65 to 126

Main statement: `summaries_logged`.
-/

namespace Overseer.Log

open Json (Value Storable)
open Json.Value (find?)

/-- A report that a run can make: the number of the child has 32 bits, what has been captured is held in
memory, and an end that has been seen is that of a wait status. -/
structure Made (r : Run.Report) : Prop where
  pid : ∀ p ∈ r.pid, Word.fitsInt32 p = true
  out : r.out.length < Word.half64
  err : r.err.length < Word.half64
  status : ∀ st ∈ r.status, ∃ raw, st = .ofWait raw

/-- What an entry says of a report. -/
structure Reports (e : Entry) (r : Run.Report) : Prop where
  outcome : e.outcome = some r.outcome
  pid : e.pid = r.pid
  exitCode : e.exitCode = (r.status.bind ExitStatus.code).map Int.ofNat
  signal : e.signal = (r.status.bind ExitStatus.signal).map Int.ofNat
  bytes : e.bytes = some (r.out.length + r.err.length)
  details : ∃ ms, e.details = some (.object ms) ∧ find? "command" ms = some (.text r.command) ∧
    find? "stdout_bytes" ms = some (.ofNat r.out.length) ∧ find? "stderr_bytes" ms = some (.ofNat r.err.length) ∧
    find? "io_errors" ms = some (.array (r.ioErrors.map Value.text))

section

variable {r : Run.Report} {e : Entry} {timestamp run session : String} {s : Nat}

/-! ## The summary of a report -/

/-- The details of a summary, in the order of their keys. -/
def summaryDetails (r : Run.Report) : List (String × Value) :=
  [("command", .text r.command), ("io_errors", .array (r.ioErrors.map Value.text)),
   ("stderr_bytes", .ofNat r.err.length), ("stdout_bytes", .ofNat r.out.length)]

theorem summary_eq : summary timestamp r =
    { summary timestamp r with
      traceId := ""
      stream := none
      pid := r.pid
      exitCode := (r.status.bind ExitStatus.code).map Int.ofNat
      signal := (r.status.bind ExitStatus.signal).map Int.ofNat
      bytes := some (r.out.length + r.err.length)
      durationMs := some (min (r.duration / 1000000) (Word.size64 - 1))
      outcome := some r.outcome
      symbol := none
      details := some (.object (summaryDetails r)) } := by
  have hdetails : Value.ofPairs [("command", .text r.command), ("stdout_bytes", .ofNat r.out.length),
      ("stderr_bytes", .ofNat r.err.length), ("io_errors", .array (r.ioErrors.map Value.text))] =
      .object (summaryDetails r) := by
    simp +decide only [Value.ofPairs, Json.members, List.foldl_cons, List.foldl_nil, Json.put, if_true, if_false,
      summaryDetails]
  unfold summary
  rw [hdetails]
  cases r.status <;> rfl

theorem reports_summary (timestamp id : String) (r : Run.Report) :
    Reports { summary timestamp r with traceId := id } r := by
  rw [summary_eq]
  exact ⟨rfl, rfl, rfl, rfl, rfl, _, rfl, rfl, rfl, rfl, rfl⟩

theorem storable_summaryDetails (hout : r.out.length < Word.half64) (herr : r.err.length < Word.half64) (n : Nat) :
    Storable (n + 2) (.object (summaryDetails r)) := by
  have hword : ∀ {n}, n < Word.half64 → n < Word.size64 := fun h => h.trans (by decide)
  refine .object (by simp only [summaryDetails, List.map_cons, List.map_nil]; decide) ?_
  simp only [summaryDetails, List.forall_mem_cons]
  exact ⟨.text _ _, .array (by simpa using fun t _ => .text _ t), storable_nat64 (hword herr),
    storable_nat64 (hword hout),
    List.forall_mem_nil _⟩

/-- A wait status with an exit code, of one byte, has no signal. -/
theorem code_ofWait {raw : Int} {c : Nat} (h : (ExitStatus.ofWait raw).code = some c) :
    c < 256 ∧ (ExitStatus.ofWait raw).signal = none := by
  unfold ExitStatus.ofWait at h ⊢
  split at h
  · next hexited =>
    rw [if_pos hexited]
    cases h
    exact ⟨by unfold ExitStatus.codeBits; omega, rfl⟩
  · split at h <;> cases h

theorem Made.code_lt (h : Made r) {c : Nat} (hc : r.status.bind ExitStatus.code = some c) :
    c < 256 ∧ r.status.bind ExitStatus.signal = none := by
  obtain ⟨st, hst, hcode⟩ := Option.bind_eq_some_iff.1 hc
  obtain ⟨raw, rfl⟩ := h.status st hst
  rw [hst]
  exact code_ofWait hcode

theorem Made.signal_range (h : Made r) (hs : r.status.bind ExitStatus.signal = some s) : 1 ≤ s ∧ s ≤ 126 := by
  obtain ⟨st, hst, hsignal⟩ := Option.bind_eq_some_iff.1 hs
  obtain ⟨raw, rfl⟩ := h.status st hst
  exact ExitStatus.signal_ofWait hsignal

theorem bounded_summary (h : Made r) (timestamp id : String) :
    Entry.Bounded { summary timestamp r with traceId := id } := by
  have hbytes : r.out.length + r.err.length < Word.size64 := by
    have hout := h.out
    have herr := h.err
    unfold Word.half64 at hout herr
    unfold Word.size64
    omega
  rw [summary_eq]
  refine ⟨h.pid, fun i hi => ?_, fun i hi => ?_, ?_, ?_, ?_⟩
  · obtain ⟨c, hc, rfl⟩ := Option.map_eq_some_iff.1 hi
    have hbyte := (h.code_lt hc).1
    exact fitsInt32_iff.2 (by simp; omega)
  · obtain ⟨s, hs, rfl⟩ := Option.map_eq_some_iff.1 hi
    have hrange := h.signal_range hs
    exact fitsInt32_iff.2 (by simp; omega)
  · rintro _ ⟨⟩
    exact hbytes
  · rintro _ ⟨⟩
    exact Nat.lt_of_le_of_lt (Nat.min_le_right _ _) (by decide)
  · rintro _ ⟨⟩
    exact storable_summaryDetails h.out h.err _

theorem recordable_summary (h : Made r) (hvalid : ∀ s ∈ r.status.bind ExitStatus.signal, s ≤ 64)
    (timestamp id : String) :
    Entry.Recordable { summary timestamp r with traceId := id } := by
  have hbounded := bounded_summary h timestamp id
  have hreports := reports_summary timestamp id r
  refine ⟨hbounded.pid, hbounded.exitCode, fun i hi => ?_, ?_, hbounded.bytes, hbounded.durationMs, fun v hv => ?_⟩
  · rw [hreports.signal] at hi
    obtain ⟨s, hs, rfl⟩ := Option.map_eq_some_iff.1 hi
    have hrange := h.signal_range hs
    have hle := hvalid s hs
    simp
    omega
  · rw [hreports.exitCode, hreports.signal]
    cases hc : r.status.bind ExitStatus.code with
    | none => exact .inl rfl
    | some c => exact .inr (by rw [(h.code_lt hc).2]; rfl)
  · refine ⟨?_, hbounded.details v hv⟩
    obtain ⟨ms, hms, -⟩ := hreports.details
    cases hms.symm.trans hv
    nofun

/-! ## Lines of summaries -/

/-- A signal that the check does not know is the one fault of an entry whose numbers fit. -/
theorem validate_badSignal {i : Int} (hbounded : e.Bounded) (hexit : e.exitCode = none) (hsignal : e.signal = some i)
    (hi : 64 < i) (hparts : colonParts e.traceId.toList = 3) (number : Nat) :
    validate e.line number = .error [⟨number, .badSignal i⟩] := by
  have hholds := holds_members_fields e
  have hfits : i < Word.half64 := by
    have h32 := fitsInt32_iff.1 (hbounded.signal _ hsignal)
    unfold Word.half64
    omega
  have hunknown : ¬ i ≤ 64 := by omega
  have hcheck : checkSignal (Json.members e.fields) = [.badSignal i] := by
    rw [checkSignal, hholds.signal, hsignal]
    simp [Value.asInt64?, hfits, Signal.isValid, hunknown]
  have hexclusive : checkExclusive (Json.members e.fields) = [] := by
    rw [checkExclusive, hholds.exitCode, hexit]
    rfl
  have htrace : checkTraceId (Json.members e.fields) = [] := by
    rw [checkTraceId, hholds.traceId]
    exact if_pos hparts
  unfold validate Entry.line
  rw [Json.read_write, reread_fields hbounded]
  dsimp only
  rw [hholds.defects_eq, hcheck, hexclusive, htrace]
  rfl

/-- Without colons in the run id and the session a given trace id has its three parts. -/
theorem colonParts_of_colonFree (hrun : ':' ∉ run.toList) (hsession : ':' ∉ session.toList) (n : Nat) :
    colonParts (Emitter.traceId run session n).toList = 3 := by
  have hfree : ∀ {l : List Char}, ':' ∉ l → ¬ separator <:+: l :=
    fun h hsep => h (hsep.subset (by simp [separator]))
  have hapart : ¬ Meet run session := fun h => hrun (List.mem_of_getLast? h.1)
  rw [colonParts_traceId (hfree hrun) (hfree hsession), if_neg hapart]

/-- **Summaries can be logged.**  The line that an emitter writes for a report comes behind all lines before
it.  With a signal up to 64, or none, it is decoded into an entry that says what the report says; with any
other signal it is refused for the signal and nothing else. -/
theorem summaries_logged (hrun : ':' ∉ run.toList) (hsession : ':' ∉ session.toList) (h : Made r)
    (timestamp : String)
    (cs : List Call) : ∃ line : String,
      ((cs ++ [Call.entry (summary timestamp r)]).foldl Call.apply (.fresh run session)).lines =
        (cs.foldl Call.apply (.fresh run session)).lines ++ [line.toList] ∧
      ∀ number,
        ((∀ s ∈ r.status.bind ExitStatus.signal, s ≤ 64) →
          ∃ e, validate line number = .ok e ∧ Reports e r) ∧
        (∀ s ∈ r.status.bind ExitStatus.signal, 64 < s →
          validate line number = .error [⟨number, .badSignal s⟩]) := by
  let e : Entry := { summary timestamp r with traceId := Emitter.traceId run session (given cs + 1) }
  have hparts : colonParts e.traceId.toList = 3 := colonParts_of_colonFree hrun hsession _
  have hreports : Reports e r := reports_summary timestamp _ r
  refine ⟨e.line, ?_, fun number => ⟨fun hvalid => ⟨e, ?_, hreports⟩, fun s hs hlarge => ?_⟩⟩
  · have hasked : (Call.entry (summary timestamp r)).written run session (given cs) = e := by
      have hauto : (summary timestamp r).traceId = "" := by rw [summary_eq]
      simp [Call.written, Call.isAutomatic, Call.asked, hauto, e]
    rw [stream_foldl.2, stream_foldl.2, entriesOf_concat, List.map_append, hasked]
    rfl
  · rw [validate_eq (recordable_summary h hvalid timestamp _), if_pos hparts]
  · have hexit : e.exitCode = none := by
      rw [hreports.exitCode]
      cases hc : r.status.bind ExitStatus.code with
      | none => rfl
      | some c => cases (h.code_lt hc).2.symm.trans hs
    have hsignal : e.signal = some (s : Int) := by rw [hreports.signal, hs]; rfl
    exact validate_badSignal (bounded_summary h timestamp _) hexit hsignal (by omega) hparts number

/-- A child that has died of signal 11 and left a core, with quotes and a line feed in its command. -/
def crashed : Run.Report where
  command := "sh -c \"kill -11 $$\"\n"
  outcome := .fail
  pid := some 4001
  status := some (.ofWait 139)
  out := [104, 105]
  err := []
  ioErrors := ["stdin: \"Broken pipe\""]
  duration := 12345000

theorem made_crashed : Made crashed where
  pid := by rintro _ ⟨⟩; decide
  out := by decide
  err := by decide
  status := by rintro _ ⟨⟩; exact ⟨139, rfl⟩

theorem crashed_logged : ∃ line : String,
    ([Call.log "t" .info "up", .entry (summary "t" crashed)].foldl Call.apply (.fresh "r" "s")).lines =
      ([Call.log "t" .info "up"].foldl Call.apply (.fresh "r" "s")).lines ++ [line.toList] ∧
    ∃ e, validate line 2 = .ok e ∧ Reports e crashed := by
  obtain ⟨line, hlines, hchecked⟩ :=
    summaries_logged (by decide : ':' ∉ "r".toList) (by decide : ':' ∉ "s".toList) made_crashed "t"
    [Call.log "t" .info "up"]
  exact ⟨line, hlines, (hchecked 2).1 (by rintro _ ⟨⟩; decide)⟩

/-- A child whose wait status holds a number that is no signal. -/
def unsignaled : Run.Report where
  command := "sleep 1"
  outcome := .fail
  pid := some 4001
  status := some (.ofWait 100)
  out := []
  err := []
  ioErrors := []
  duration := 0

/-- Its line is refused for the signal that the status holds. -/
theorem unsignaled_refused : Made unsignaled ∧ ∃ line,
    ((Emitter.fresh "r" "s").emitEntry (summary "t" unsignaled)).written = [line] ∧
    validate line 1 = .error [⟨1, .badSignal 100⟩] := by
  have hmade : Made unsignaled :=
    { pid := by rintro _ ⟨⟩; decide
      out := by decide
      err := by decide
      status := by rintro _ ⟨⟩; exact ⟨100, rfl⟩ }
  let e : Entry := { summary "t" unsignaled with traceId := Emitter.traceId "r" "s" 1 }
  have hreports : Reports e unsignaled := reports_summary "t" _ unsignaled
  refine ⟨hmade, e.line, ?_, ?_⟩
  · have hauto : (summary "t" unsignaled).traceId = "" := by rw [summary_eq]
    rw [Emitter.emitEntry, if_pos hauto]
    rfl
  · exact validate_badSignal (bounded_summary hmade "t" _) hreports.exitCode hreports.signal (by decide)
      (colonParts_of_colonFree (by decide) (by decide) 1) 1

end

end Overseer.Log
