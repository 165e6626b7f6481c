import Mathlib.Data.List.Basic
import Overseer.Cli.Program
import Overseer.Proofs.Schema

/-!
# Lines with a fault

The lines of a file are numbered from one.  Those that are blank are passed over, and each other line
that is refused brings its faults, at least one of them, all with its number.  So the faults are in the
order of the lines, the faults of one line stand together, and their numbers without repeats are the
numbers of the refused lines.

    (validateText s).2            = the faults of all refused lines, one line after the other
    dedup (numbers of the faults) = numbers of the refused lines
    invalidCount faults           = number of the refused lines

Main statements: `validateLines_eq`, `dedup_lines`, `log_is_judged`.
-/

namespace Overseer.Log

/-- The lines of a text with their numbers. -/
def numbered (text : String) : List (List Char × Nat) := (linesOf text.toList).zipIdx 1

/-- Nothing is left of the line without the blanks at its ends. -/
def isBlankLine (p : List Char × Nat) : Bool := (Text.trimChars p.1).isEmpty

/-- What the check of a line says that has no blanks at its ends. -/
def verdictOf (p : List Char × Nat) : Except (List Fault) Entry := validate (String.ofList (Text.trimChars p.1)) p.2

/-- The line is not blank, and without the blanks at its ends it is refused. -/
def isRefused (p : List Char × Nat) : Bool := !isBlankLine p && !(verdictOf p).isOk

/-- The faults that a line brings. -/
def faultsOf (p : List Char × Nat) : List Fault :=
  if isBlankLine p then []
  else match verdictOf p with
    | .ok _ => []
    | .error fs => fs

section

variable {p : List Char × Nat} {ps : List (List Char × Nat)} {f : Fault} {a k n : Nat} {r : List Nat} {text : String}

/-! ## The faults of a line -/

theorem validateLines_eq (number : Nat) (ls : List (List Char)) : validateLines number ls =
    ((ls.zipIdx number).countP (fun p => !isBlankLine p), (ls.zipIdx number).flatMap faultsOf) := by
  induction ls generalizing number with
  | nil => rfl
  | cons l ls ih =>
    rw [validateLines, ih (number + 1), List.zipIdx_cons, List.countP_cons, List.flatMap_cons]
    have hblank : isBlankLine (l, number) = (Text.trimChars l).isEmpty := rfl
    have hverdict : verdictOf (l, number) = validate (String.ofList (Text.trimChars l)) number := rfl
    simp only [faultsOf, hblank, hverdict]
    cases (Text.trimChars l).isEmpty with
    | true => rfl
    | false => cases validate (String.ofList (Text.trimChars l)) number <;> rfl

theorem faultsOf_eq_nil : faultsOf p = [] ↔ isRefused p = false := by
  unfold faultsOf isRefused
  cases isBlankLine p with
  | true => simp
  | false =>
    cases hverdict : verdictOf p with
    | ok e => simp [Except.isOk, Except.toBool]
    | error fs => simpa [Except.isOk, Except.toBool] using faults_ne_nil hverdict

theorem faultsOf_ne_nil (h : isRefused p = true) : faultsOf p ≠ [] := fun hnil => by
  rw [faultsOf_eq_nil.1 hnil] at h
  cases h

theorem line_of_mem_faultsOf (h : f ∈ faultsOf p) : f.line = p.2 := by
  unfold faultsOf at h
  split at h
  · cases h
  · split at h
    · cases h
    · next hverdict => exact (fault_cases hverdict h).1

/-- The numbers of the faults of a line are its own number, as often as it has faults. -/
theorem lines_faultsOf (p : List Char × Nat) :
    (faultsOf p).map (·.line) = List.replicate (faultsOf p).length p.2 := by
  rw [List.eq_replicate_iff]
  refine ⟨List.length_map _, fun n hn => ?_⟩
  obtain ⟨f, hf, rfl⟩ := List.mem_map.1 hn
  exact line_of_mem_faultsOf hf

/-! ## The faults of a file -/

theorem mem_lines_iff : n ∈ (ps.flatMap faultsOf).map (·.line) ↔ ∃ p ∈ ps, isRefused p = true ∧ p.2 = n := by
  constructor
  · intro h
    obtain ⟨f, hf, rfl⟩ := List.mem_map.1 h
    obtain ⟨p, hp, hfp⟩ := List.mem_flatMap.1 hf
    have hrefused : isRefused p ≠ false := fun hok => by
      rw [faultsOf_eq_nil.2 hok] at hfp
      cases hfp
    exact ⟨p, hp, by simpa using hrefused, (line_of_mem_faultsOf hfp).symm⟩
  · rintro ⟨p, hp, hrefused, rfl⟩
    obtain ⟨f, hf⟩ := List.exists_mem_of_ne_nil _ (faultsOf_ne_nil hrefused)
    exact List.mem_map.2 ⟨f, List.mem_flatMap.2 ⟨p, hp, hf⟩, line_of_mem_faultsOf hf⟩

/-- Numbers that stand in front of larger ones only. -/
def Ascends (ps : List (List Char × Nat)) : Prop := ps.Pairwise fun p q => p.2 < q.2

theorem ascends_zipIdx (ls : List (List Char)) (number : Nat) : Ascends (ls.zipIdx number) := by
  induction ls generalizing number with
  | nil => exact .nil
  | cons l ls ih => exact List.pairwise_cons.2 ⟨fun q hq => List.le_snd_of_mem_zipIdx hq, ih (number + 1)⟩

theorem lines_sorted (h : Ascends ps) : ((ps.flatMap faultsOf).map (·.line)).Pairwise (· ≤ ·) := by
  rw [List.pairwise_map, List.pairwise_flatMap]
  constructor
  · intro p _
    exact List.pairwise_of_forall_mem_list fun f hf g hg => by
      rw [line_of_mem_faultsOf hf, line_of_mem_faultsOf hg]
  · refine h.imp fun hlt f hf g hg => ?_
    rw [line_of_mem_faultsOf hf, line_of_mem_faultsOf hg]
    exact Nat.le_of_lt hlt

/-- Of equal numbers that follow one another one is left. -/
theorem dedup_replicate_append (h : ∀ b ∈ dedup r, a < b) (k : Nat) :
    dedup (List.replicate (k + 1) a ++ r) = a :: dedup r := by
  induction k with
  | zero =>
    rw [List.replicate_one, List.singleton_append, dedup]
    cases hr : dedup r with
    | nil => rfl
    | cons b s => exact if_neg (Nat.ne_of_lt (h b (by simp [hr])))
  | succ k ih =>
    rw [List.replicate_succ, List.cons_append, dedup, ih]
    exact if_pos rfl

/-- Without repeats, the numbers of the faults are those of the refused lines. -/
theorem dedup_lines (h : Ascends ps) :
    dedup ((ps.flatMap faultsOf).map (·.line)) = (ps.filter isRefused).map Prod.snd := by
  induction ps with
  | nil => rfl
  | cons p ps ih =>
    obtain ⟨hfirst, hrest⟩ := List.pairwise_cons.1 h
    rw [List.flatMap_cons, List.map_append, List.filter_cons]
    cases hrefused : isRefused p with
    | false => simpa [faultsOf_eq_nil.2 hrefused] using ih hrest
    | true =>
      -- later lines have larger numbers, so the faults of this line are one run in front of theirs
      have hlarger : ∀ b ∈ dedup ((ps.flatMap faultsOf).map (·.line)), p.2 < b := fun b hb => by
        rw [ih hrest] at hb
        obtain ⟨q, hq, rfl⟩ := List.mem_map.1 hb
        exact hfirst q (List.mem_filter.1 hq).1
      obtain ⟨k, hk⟩ := Nat.exists_eq_succ_of_ne_zero (mt List.length_eq_zero_iff.1 (faultsOf_ne_nil hrefused))
      rw [lines_faultsOf, hk, dedup_replicate_append hlarger, ih hrest]
      rfl

theorem invalidCount_eq (h : Ascends ps) : invalidCount (ps.flatMap faultsOf) = ps.countP isRefused := by
  rw [invalidCount, dedup_lines h, List.length_map, List.countP_eq_length_filter]

/-! ## The check of a file -/

/-- What the check of a text says of its lines: how many are not blank, and which are refused. -/
structure Judges (text : String) (count : Nat) (faults : List Fault) : Prop where
  count_eq : count = (numbered text).countP fun p => !isBlankLine p
  sorted : (faults.map (·.line)).Pairwise (· ≤ ·)
  mem_iff : ∀ n, n ∈ faults.map (·.line) ↔ ∃ l, (l, n) ∈ numbered text ∧ isRefused (l, n) = true
  invalid_eq : invalidCount faults = (numbered text).countP isRefused

theorem validateText_eq (text : String) : validateText text =
    ((numbered text).countP (fun p => !isBlankLine p), (numbered text).flatMap faultsOf) :=
  validateLines_eq 1 _

theorem judges_validateText (text : String) : Judges text (validateText text).1 (validateText text).2 := by
  have hascends : Ascends (numbered text) := ascends_zipIdx _ 1
  rw [validateText_eq]
  refine ⟨rfl, lines_sorted hascends, fun n => mem_lines_iff.trans ⟨?_, ?_⟩, invalidCount_eq hascends⟩
  · rintro ⟨⟨l, n⟩, hmem, hrefused, rfl⟩
    exact ⟨l, hmem, hrefused⟩
  · rintro ⟨l, hmem, hrefused⟩
    exact ⟨(l, n), hmem, hrefused, rfl⟩

/-- A refused line is one that is not blank. -/
theorem countP_isRefused_le (ps : List (List Char × Nat)) :
    ps.countP isRefused ≤ ps.countP fun p => !isBlankLine p := by
  refine List.countP_mono_left fun _ _ hrefused => ?_
  rw [isRefused, Bool.and_eq_true] at hrefused
  exact hrefused.1

theorem flatMap_faultsOf_isEmpty (ps : List (List Char × Nat)) :
    (ps.flatMap faultsOf).isEmpty = true ↔ ∀ p ∈ ps, isRefused p = false := by
  rw [List.isEmpty_iff, List.flatMap_eq_nil_iff]
  exact forall₂_congr fun _ _ => faultsOf_eq_nil

open Cli (Files Screen)

/-- The screen of the command once the faults are printed. -/
def faultScreen (files : Files) (faults : List Fault) : Screen :=
  (Screen.blank files).printError (String.join (faults.map fun f => f.text ++ "\n"))

variable {files : Files} {path : String} {bytes : Bytes}

theorem validateLog_eq (hread : files.read path = .ok bytes) (htext : Text.Utf8.decode bytes = some text) :
    Cli.validateLog files path =
      if (validateText text).2.isEmpty then
        ((faultScreen files (validateText text).2).printError
          (path ++ ": " ++ toString (validateText text).1 ++ " lines valid\n")).exit 0
      else (faultScreen files (validateText text).2).fail
        (.invalidLog (validateText text).1 (invalidCount (validateText text).2)) := by
  have hreadText : Cli.readText files path = .ok text := by
    simp only [Cli.readText, hread, bind, Except.bind, htext]
    rfl
  rw [Cli.validateLog, hreadText]
  rfl

/-- **Lines are counted right.**  The check of a file says how many of its lines are not blank, and its faults
are in the order of the lines and are those of the lines that are refused.  The command succeeds just if no
line is refused, and else it says how many lines are refused, which are some and not more than those that are
not blank. -/
theorem log_is_judged (hread : files.read path = .ok bytes) (htext : Text.Utf8.decode bytes = some text) :
    Judges text (validateText text).1 (validateText text).2 ∧
    ((Cli.validateLog files path).code = 0 ↔ ∀ p ∈ numbered text, isRefused p = false) ∧
    ((∃ p ∈ numbered text, isRefused p = true) → ∃ lines invalid,
      Cli.validateLog files path = (faultScreen files (validateText text).2).fail (.invalidLog lines invalid) ∧
      lines = (numbered text).countP (fun p => !isBlankLine p) ∧ invalid = (numbered text).countP isRefused ∧
      1 ≤ invalid ∧ invalid ≤ lines) := by
  have hjudges := judges_validateText text
  have hempty : (validateText text).2.isEmpty = true ↔ ∀ p ∈ numbered text, isRefused p = false := by
    rw [validateText_eq]
    exact flatMap_faultsOf_isEmpty _
  refine ⟨hjudges, ?_, fun hrefused => ⟨_, _, ?_, hjudges.count_eq, hjudges.invalid_eq, ?_, ?_⟩⟩
  · rw [validateLog_eq hread htext, ← hempty]
    split_ifs with hnone
    · exact iff_of_true rfl hnone
    · exact iff_of_false (by simp [Screen.fail, Screen.exit, Run.Error.exitCode]) hnone
  · have hsome : ¬ (validateText text).2.isEmpty = true := fun hnone => by
      obtain ⟨p, hp, h⟩ := hrefused
      rw [hempty.1 hnone p hp] at h
      cases h
    rw [validateLog_eq hread htext, if_neg hsome]
  · rw [hjudges.invalid_eq]
    exact List.countP_pos_iff.2 hrefused
  · rw [hjudges.invalid_eq, hjudges.count_eq]
    exact countP_isRefused_le _

/-- An array, a blank line, and an object without fields. -/
def flawed : String := "[]\n\n\x7b\x7d"

def flawedFiles : Files := ⟨[([], .directory), (["log"], .file (Text.Utf8.encode flawed))]⟩

theorem judged_flawed : flawedFiles.read "log" = .ok (Text.Utf8.encode flawed) ∧
    Text.Utf8.decode (Text.Utf8.encode flawed) = some flawed ∧
    (numbered flawed).map Prod.snd = [1, 2, 3] ∧ (numbered flawed).filter isRefused ≠ [] ∧
    Cli.validateLog flawedFiles "log" = (faultScreen flawedFiles (validateText flawed).2).fail (.invalidLog 2 2) := by
  have hread : flawedFiles.read "log" = .ok (Text.Utf8.encode flawed) := rfl
  have htext : Text.Utf8.decode (Text.Utf8.encode flawed) = some flawed := Text.Utf8.decode_encode flawed
  obtain ⟨-, -, hfail⟩ := log_is_judged hread htext
  obtain ⟨lines, invalid, houtcome, hlines, hinvalid, -⟩ := hfail ⟨(['[', ']'], 1), by decide, rfl⟩
  have htwo : lines = 2 ∧ invalid = 2 := ⟨hlines.trans rfl, hinvalid.trans rfl⟩
  rw [htwo.1, htwo.2] at houtcome
  exact ⟨hread, htext, rfl, by decide, houtcome⟩

end

end Overseer.Log
