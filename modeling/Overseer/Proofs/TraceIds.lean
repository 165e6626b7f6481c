import Mathlib.Data.List.Forall2
import Overseer.Proofs.Emitting
import Overseer.Proofs.Recording

/-!
# Trace ids that are given and trace ids that are checked

A given trace id is run::session::n, and the check counts the parts of an id from the left.  A colon at the end of the
run id makes the first separator begin one place early, so that a colon is left over in front of the session; if the
session begins with a colon as well, the two are a separator of their own.

    parts of run::session::n  =  4   if run ends in a colon and session begins with one
                                 3   otherwise                       neither run nor session has a separator

Main statements: `colonParts_traceId`, `trace_ids_agree`.
-/

namespace Overseer.Log

open Emitter (traceId)
open Json (Value)
open Json.Value (find?)

section

variable {run session line : String} {s d : List Char} {m : List (String × Value)} {e : Entry} {number : Nat}
  {fs : List Fault}

/-! ## Parts of a trace id -/

/-- A colon behind a text without separator makes one with a colon at the end of the text. -/
theorem separator_infix_concat (h : ¬ separator <:+: s) : separator <:+: s ++ [':'] ↔ s.getLast? = some ':' := by
  have hsuffix : separator <:+ s ++ [':'] ↔ s.getLast? = some ':' := by
    rw [List.getLast?_eq_some_iff]
    constructor
    · rintro ⟨p, hp⟩
      have hmoved : p ++ [':'] ++ [':'] = s ++ [':'] := by rw [← hp, List.append_assoc]; rfl
      exact ⟨p, (List.append_cancel_right hmoved).symm⟩
    · rintro ⟨p, rfl⟩
      exact ⟨p, by simp [separator]⟩
  rw [List.infix_concat_iff, hsuffix, or_iff_left h]

/-- A separator behind a text begins one place early, if the text ends in a colon. -/
theorem colonParts_append (h : ¬ separator <:+: s) (r : List Char) : colonParts (s ++ separator ++ r) =
    colonParts (if s.getLast? = some ':' then ':' :: r else r) + 1 := by
  split
  · next hlast =>
    obtain ⟨p, rfl⟩ := List.getLast?_eq_some_iff.1 hlast
    have hmoved : p ++ [':'] ++ separator ++ r = p ++ separator ++ ':' :: r := by simp [separator]
    rw [hmoved, colonParts_append_separator h]
  · next hlast => exact colonParts_append_separator (mt (separator_infix_concat h).1 hlast) r

/-- Two parts are left when the last one has no separator, not even with a colon in front. -/
theorem colonParts_append_last (h : ¬ separator <:+: s) (hd : ¬ separator <:+: ':' :: d) :
    colonParts (s ++ separator ++ d) = 2 := by
  have hlast : colonParts d = 1 := colonParts_of_not_separator fun hs => hd (List.infix_cons hs)
  rw [colonParts_append h]
  split
  · rw [colonParts_of_not_separator hd]
  · rw [hlast]

/-- The colons at the end of the run id and in front of the session make a separator. -/
def Meet (run session : String) : Prop := run.toList.getLast? = some ':' ∧ session.toList.head? = some ':'

instance : Decidable (Meet run session) := inferInstanceAs (Decidable (_ ∧ _))

theorem not_separator_padded (w n : Nat) : ¬ separator <:+: ':' :: (Text.padded (w + 1) n).toList := by
  intro h
  have hcolon : ∀ c ∈ (Text.padded (w + 1) n).toList, c ≠ ':' := by
    rintro c hc rfl
    exact absurd (isDigit_of_mem_padded hc) (by decide)
  rcases separator_infix_cons.1 h with ⟨-, hhead⟩ | hsep
  · exact hcolon _ (List.mem_of_head? hhead) rfl
  · exact hcolon ':' (hsep.subset (by simp [separator])) rfl

/-- **The parts of a given trace id.** -/
theorem colonParts_traceId (hrun : ¬ separator <:+: run.toList) (hsession : ¬ separator <:+: session.toList)
    (n : Nat) :
    colonParts (traceId run session n).toList = if Meet run session then 4 else 3 := by
  have hdigits := not_separator_padded 2 n
  have hchars : (traceId run session n).toList =
      run.toList ++ separator ++ (session.toList ++ separator ++ (Text.padded 3 n).toList) := by
    simp [traceId, separator]
  rw [hchars, colonParts_append hrun]
  by_cases hlast : run.toList.getLast? = some ':'
  · rw [if_pos hlast]
    by_cases hfirst : session.toList.head? = some ':'
    · have hmeet : Meet run session := ⟨hlast, hfirst⟩
      obtain ⟨t, ht⟩ := List.head?_eq_some_iff.1 hfirst
      have htail : ¬ separator <:+: t := fun h => hsession (ht ▸ List.infix_cons h)
      rw [if_pos hmeet, ht, List.cons_append, List.cons_append, colonParts, colonParts_append_last htail hdigits]
    · have hapart : ¬ Meet run session := fun h => hfirst h.2
      have hcolon : ¬ separator <:+: ':' :: session.toList := by
        rw [separator_infix_cons, not_or]
        exact ⟨fun h => hfirst h.2, hsession⟩
      rw [if_neg hapart, ← List.cons_append, ← List.cons_append, colonParts_append_last hcolon hdigits]
  · have hapart : ¬ Meet run session := fun h => hlast h.1
    rw [if_neg hlast, if_neg hapart, colonParts_append_last hsession hdigits]

/-! ## What is read of a line -/

/-- What is read of members has the same keys, each with what is read of its value. -/
theorem rereadMembers_forall₂ {ms ws : List (String × Value)} {depth : Nat}
    (h : Json.rereadMembers ms depth = some ws) :
    List.Forall₂ (fun m w => w.1 = m.1 ∧ m.2.reread depth = some w.2) ms ws := by
  induction ms generalizing ws with
  | nil => cases h; exact .nil
  | cons m ms ih =>
    rw [Json.rereadMembers] at h
    obtain ⟨v, hv, hrest⟩ := Option.bind_eq_some_iff.1 h
    obtain ⟨ws, hws, rfl⟩ := Option.map_eq_some_iff.1 hrest
    exact .cons ⟨rfl, hv⟩ (ih hws)

theorem find?_of_forall₂ {ms ws : List (String × Value)} {depth : Nat} {k : String} {v : Value}
    (h : List.Forall₂ (fun m w => w.1 = m.1 ∧ m.2.reread depth = some w.2) ms ws) (hfind : find? k ms = some v) :
    ∃ w, find? k ws = some w ∧ v.reread depth = some w := by
  induction h with
  | nil => cases hfind
  | @cons m w ms ws hm _ ih =>
    obtain ⟨l, u⟩ := w
    obtain ⟨rfl, hu⟩ := hm
    rw [Value.find?_cons]
    by_cases hl : m.1 = k
    · rw [show find? k (m :: ms) = some m.2 from if_pos hl] at hfind
      cases hfind
      exact ⟨u, if_pos hl, hu⟩
    · rw [if_neg hl]
      exact ih ((if_neg hl).symm.trans hfind)

/-- What is read of the line of an entry has the trace id of the entry. -/
theorem find?_traceId_of_read {v : Value} (h : Json.read e.line = some v) :
    ∃ m, v = .object m ∧ find? "trace_id" m = some (.text e.traceId) := by
  rw [Entry.line, Json.read_write, Value.reread, if_neg (by decide)] at h
  obtain ⟨ws, hws, rfl⟩ := Option.map_eq_some_iff.1 h
  have hfields := (holds_members_fields e).traceId
  rw [Value.find?_members] at hfields
  obtain ⟨w, hfind, hw⟩ := find?_of_forall₂ (List.forall₂_reverse_iff.2 (rereadMembers_forall₂ hws)) hfields
  rw [Value.reread] at hw
  cases hw
  exact ⟨_, rfl, by rw [Value.find?_members, hfind]⟩

theorem not_mem_checkName {field : String} {names : List String} {fault : String → Defect} {x : Defect}
    (h : ∀ t, fault t ≠ x) : x ∉ checkName m field names fault := by
  unfold checkName
  split
  · split
    · exact List.not_mem_nil
    · exact fun hx => h _ (List.mem_singleton.1 hx).symm
  · exact List.not_mem_nil

/-- Only the check of the trace id finds fault with it. -/
theorem mem_checkTraceId_of_mem_defects {t : String} (h : .badTraceId t ∈ defects m) :
    .badTraceId t ∈ checkTraceId m := by
  have hmissing : .badTraceId t ∉ missingFields m := by simp [missingFields]
  have hsignal : .badTraceId t ∉ checkSignal m := by
    unfold checkSignal
    split
    · split <;> simp
    · simp
  have hexclusive : .badTraceId t ∉ checkExclusive m := by
    unfold checkExclusive
    split <;> simp
  simp only [defects, List.mem_append] at h
  rcases h with (((((h | h) | h) | h) | h) | h) | h
  · exact absurd h hmissing
  · exact absurd h (not_mem_checkName (by rintro _ ⟨⟩))
  · exact absurd h (not_mem_checkName (by rintro _ ⟨⟩))
  · exact absurd h (not_mem_checkName (by rintro _ ⟨⟩))
  · exact absurd h hsignal
  · exact absurd h hexclusive
  · exact h

/-- All that can be found: the line holds no object, a field is at fault, or no entry can be made of the fields. -/
theorem fault_cases (h : validate line number = .error fs) {f : Fault} (hf : f ∈ fs) :
    f.line = number ∧ (f.defect = .notJson ∨ f.defect = .notObject ∨ f.defect = .notEntry ∨
      ∃ m, Json.read line = some (.object m) ∧ f.defect ∈ defects m) := by
  unfold validate at h
  split at h
  · cases h
    cases List.mem_singleton.1 hf
    exact ⟨rfl, .inl rfl⟩
  · next m hread =>
    split at h
    · split at h
      · cases h
      · cases h
        cases List.mem_singleton.1 hf
        exact ⟨rfl, .inr (.inr (.inl rfl))⟩
    · cases h
      obtain ⟨x, hx, rfl⟩ := List.mem_map.1 hf
      exact ⟨rfl, .inr (.inr (.inr ⟨m, hread, hx⟩))⟩
  · cases h
    cases List.mem_singleton.1 hf
    exact ⟨rfl, .inr (.inl rfl)⟩

/-- No fault is found with a trace id of three parts, whatever else the entry holds. -/
theorem not_badTraceId (hparts : colonParts e.traceId.toList = 3) (hfaults : validate e.line number = .error fs)
    (t : String) : ∀ f ∈ fs, f.defect ≠ .badTraceId t := by
  intro f hf hbad
  obtain ⟨-, hcases⟩ := fault_cases hfaults hf
  rw [hbad] at hcases
  rcases hcases with h | h | h | ⟨m, hread, hmem⟩
  · cases h
  · cases h
  · cases h
  · obtain ⟨_, ⟨⟩, hfind⟩ := find?_traceId_of_read hread
    have hnone : checkTraceId m = [] := by
      rw [checkTraceId, hfind]
      exact if_pos hparts
    have hcheck := mem_checkTraceId_of_mem_defects hmem
    rw [hnone] at hcheck
    cases hcheck

/-! ## Given ids under the check -/

/-- **Emitter and validator.**  They agree on the trace ids that are given, unless the run id ends in a colon and the
session begins with one; then they never agree. -/
theorem trace_ids_agree (run session : String) (hrun : ¬ separator <:+: run.toList)
    (hsession : ¬ separator <:+: session.toList) :
    (∀ n, colonParts (traceId run session n).toList = 3 ↔ ¬ Meet run session) ∧
    ∀ (cs : List Call) i (h : i < cs.length), cs[i].asked.traceId = "" →
      let e := cs[i].written run session (given (cs.take i))
      (cs.foldl Call.apply (.fresh run session)).lines[i]? = some e.line.toList ∧ ∀ number,
        (¬ Meet run session → ∀ fs, validate e.line number = .error fs →
          ∀ f ∈ fs, ∀ t, f.defect ≠ .badTraceId t) ∧
        (Meet run session → e.Recordable →
          validate e.line number = .error [⟨number, .badTraceId e.traceId⟩]) := by
  have hparts := colonParts_traceId hrun hsession
  refine ⟨fun n => ?_, fun cs i h hauto =>
    ⟨?_, fun number => ⟨fun hapart fs hfs f hf t => ?_, fun hmeet hrec => ?_⟩⟩⟩
  · rw [hparts]
    split <;> simp_all
  · rw [stream_foldl.2, List.getElem?_map, getElem_entriesOf h]
    rfl
  · refine not_badTraceId ?_ hfs t f hf
    rw [Call.traceId_written hauto, hparts, if_neg hapart]
  · have hfour : colonParts (cs[i].written run session (given (cs.take i))).traceId.toList = 4 := by
      rw [Call.traceId_written hauto, hparts, if_pos hmeet]
    rw [validate_eq hrec, if_neg (by rw [hfour]; decide)]

/-- A colon at one end of the separator does no harm. -/
theorem trace_ids_agree_of_one_colon : colonParts (traceId "a:" "b:" 1000).toList = 3 :=
  ((trace_ids_agree "a:" "b:" (by decide) (by decide)).1 1000).2 (by decide)

/-- Colons at both ends make a separator of their own, and the entry that has been written is refused. -/
theorem colons_meet :
    ¬ (∀ run session : String, ¬ separator <:+: run.toList → ¬ separator <:+: session.toList →
      ∀ n, colonParts (traceId run session n).toList = 3) ∧
    ((Emitter.fresh "a:" ":b").emit "1970-01-01T00:00:00.000Z" .info "start").2.written =
      [((Call.emit "1970-01-01T00:00:00.000Z" .info "start").written "a:" ":b" 0).line] ∧
    validate ((Call.emit "1970-01-01T00:00:00.000Z" .info "start").written "a:" ":b" 0).line 1 =
      .error [⟨1, .badTraceId "a::::b::001"⟩] := by
  refine ⟨fun h => ?_, rfl, ?_⟩
  · have hthree := h "a:" ":b" (by decide) (by decide) 1
    rw [colonParts_traceId (by decide) (by decide), if_pos (by decide)] at hthree
    cases hthree
  · have hid : ((Call.emit "1970-01-01T00:00:00.000Z" .info "start").written "a:" ":b" 0).traceId =
        "a::::b::001" := by
      decide
    have hrec : ((Call.emit "1970-01-01T00:00:00.000Z" .info "start").written "a:" ":b" 0).Recordable :=
      { pid := nofun
        exitCode := nofun
        signal := nofun
        exclusive := .inl rfl
        bytes := nofun
        durationMs := nofun
        details := nofun }
    rw [validate_eq hrec, hid]
    rfl

end

end Overseer.Log
