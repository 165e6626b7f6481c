import Mathlib.Algebra.Group.Nat.Defs
import Mathlib.Data.List.Basic
import Overseer.Command.Basic
import Overseer.Proofs.Rereading

/-!
# Commands on one line

Arguments are shown one behind the other with a space between two of them.  An argument that is not
quoted has neither a blank nor a quote in it, so it ends at the first space; in a quoted one a quote
stands behind a backslash, so it ends at the first quote that does not, and each escape tells its
character.

    escapeChar c ++ r = escapeChar d ++ s  →  c = d ∧ r = s
    showArg a ++ r    = showArg b ++ s     →  a = b ∧ r = s        r and s are empty or begin with a space
    display c = display d  ↔  c.args = d.args

Main statements: `escapeChar_append_inj`, `showArg_append_inj`, `display_inj`.
-/

namespace Overseer

namespace Text

open Json (closeBrace openBrace)

section

variable {c d : Char} {a b r s : List Char}

/-! ## Numbers in hexadecimal -/

/-- The value of hexadecimal digits that stand behind those of `n`. -/
def hexValueFrom (n : Nat) (ds : List Char) : Nat :=
  ds.foldl (fun n c => 16 * n + (Json.hexValue? c).getD 0) n

theorem hexValueFrom_hexDigitsFrom {fuel n : Nat} (hn : n < 16 ^ (fuel + 1)) (acc : List Char) :
    hexValueFrom 0 (hexDigitsFrom (fuel + 1) n acc) = hexValueFrom n acc := by
  induction fuel generalizing n acc with
  | zero =>
    have hdigit : n < 16 := by simpa using hn
    rw [hexDigitsFrom, if_pos hdigit]
    simp [hexValueFrom, Json.hexValue?_hexDigit n hdigit]
  | succ fuel ih =>
    rw [hexDigitsFrom]
    split_ifs with hdigit
    · simp [hexValueFrom, Json.hexValue?_hexDigit n hdigit]
    · have hshorter : n / 16 < 16 ^ (fuel + 1) := by
        rw [Nat.pow_succ] at hn
        omega
      rw [ih hshorter]
      simp only [hexValueFrom, List.foldl_cons, Json.hexValue?_hexDigit _ (Nat.mod_lt n (by decide)),
        Option.getD_some]
      rw [Nat.div_add_mod]

/-- A number can be read off its digits. -/
theorem hexValueFrom_hexNumber (n : Nat) : hexValueFrom 0 (hexNumber n).toList = n := by
  have hn : n < 16 ^ (n.log2 / 4 + 1) := calc
    n < 2 ^ (n.log2 + 1) := Nat.lt_log2_self
    _ ≤ 2 ^ (4 * (n.log2 / 4 + 1)) := Nat.pow_le_pow_right (by decide) (by omega)
    _ = 16 ^ (n.log2 / 4 + 1) := Nat.pow_mul 2 4 _
  rw [hexNumber, String.toList_ofList, hexValueFrom_hexDigitsFrom hn]
  rfl

theorem closeBrace_notMem_hexDigitsFrom {fuel n : Nat} {acc : List Char} (hacc : closeBrace ∉ acc) :
    closeBrace ∉ hexDigitsFrom fuel n acc := by
  have hdigit : ∀ k < 16, Bytes.hexDigit k ≠ closeBrace := by decide
  induction fuel generalizing n acc with
  | zero => exact hacc
  | succ fuel ih =>
    rw [hexDigitsFrom]
    split_ifs with hn
    · exact List.not_mem_cons_of_ne_of_not_mem (hdigit n hn).symm hacc
    · exact ih (List.not_mem_cons_of_ne_of_not_mem (hdigit _ (Nat.mod_lt n (by decide))).symm hacc)

/-! ## Escapes -/

/-- The character that a letter behind a backslash stands for. -/
def letterMeaning (c : Char) : Char :=
  if c = 't' then '\t' else if c = 'n' then '\n' else if c = 'r' then '\r'
  else if c = '0' then Char.ofNat 0 else c

/-- The first character that an escaped text stands for, and what is left behind it. -/
def readEscape : List Char → Option (Char × List Char)
  | [] => none
  | c :: r =>
    if c = '\\' then
      match r with
      | [] => none
      | d :: r =>
        if d = 'u' then
          some (Char.ofNat (hexValueFrom 0 (r.tail.takeWhile (· ≠ closeBrace))),
            (r.tail.dropWhile (· ≠ closeBrace)).tail)
        else some (letterMeaning d, r)
    else some (c, r)

theorem readEscape_number (n : Nat) (r : List Char) :
    readEscape (['\\', 'u', openBrace] ++ (hexNumber n).toList ++ [closeBrace] ++ r) = some (Char.ofNat n, r) := by
  have hmem : closeBrace ∉ (hexNumber n).toList := by
    rw [hexNumber, String.toList_ofList]
    exact closeBrace_notMem_hexDigitsFrom List.not_mem_nil
  have hall : ∀ c ∈ (hexNumber n).toList, decide (c ≠ closeBrace) = true := fun c hc =>
    decide_eq_true fun h => hmem (h ▸ hc)
  simp only [List.append_assoc, List.cons_append, List.nil_append, readEscape, if_pos, List.tail_cons]
  rw [List.takeWhile_append_of_pos hall, List.dropWhile_append_of_pos hall]
  simp [hexValueFrom_hexNumber]

/-- The escape of a character stands for it, whatever comes behind. -/
theorem readEscape_escapeChar (c : Char) (r : List Char) : readEscape (escapeChar c ++ r) = some (c, r) := by
  unfold escapeChar
  split_ifs with hquote hbackslash htab hfeed hreturn hnul hnumber
  · subst hquote; rfl
  · subst hbackslash; rfl
  · subst htab; rfl
  · subst hfeed; rfl
  · subst hreturn; rfl
  · rw [← Char.ofNat_toNat c, hnul]; rfl
  · exact (readEscape_number c.toNat r).trans (by rw [Char.ofNat_toNat])
  · simp [readEscape, hbackslash]

theorem escapeChar_append_inj (h : escapeChar c ++ r = escapeChar d ++ s) : c = d ∧ r = s := by
  have hread := congrArg readEscape h
  rw [readEscape_escapeChar, readEscape_escapeChar] at hread
  simpa using hread

/-! ## Quoted texts -/

/-- No escape begins with a quote. -/
theorem escapeChar_ne_quote (c : Char) (r s : List Char) : escapeChar c ++ r ≠ '"' :: s := by
  intro h
  unfold escapeChar at h
  split_ifs at h <;> simp_all

/-- A quoted text ends where it says. -/
theorem quotedChars_append_inj (h : quotedChars a ++ r = quotedChars b ++ s) : a = b ∧ r = s := by
  have hbody : a.flatMap escapeChar ++ '"' :: r = b.flatMap escapeChar ++ '"' :: s := by
    simpa [quotedChars] using h
  clear h
  induction a generalizing b with
  | nil =>
    cases b with
    | nil => exact ⟨rfl, by simpa using hbody⟩
    | cons d b =>
      rw [List.flatMap_cons, List.append_assoc] at hbody
      exact absurd hbody.symm (escapeChar_ne_quote d _ _)
  | cons c a ih =>
    cases b with
    | nil =>
      rw [List.flatMap_cons, List.append_assoc] at hbody
      exact absurd hbody (escapeChar_ne_quote c _ _)
    | cons d b =>
      rw [List.flatMap_cons, List.flatMap_cons, List.append_assoc, List.append_assoc] at hbody
      obtain ⟨rfl, hrest⟩ := escapeChar_append_inj hbody
      obtain ⟨rfl, rfl⟩ := ih hrest
      exact ⟨rfl, rfl⟩

end

end Text

namespace Command

section

variable {a b : String} {as bs : List String} {r s : List Char} {c d : Command}

/-! ## Arguments -/

/-- What may stand behind an argument: nothing, or a space. -/
def Ends (r : List Char) : Prop := ∀ c ∈ r.head?, c = ' '

/-- An argument that is shown as it is has a first character, and has neither a space nor a quote in it. -/
theorem plain_of_not_needsQuotes (h : needsQuotes a = false) :
    a.toList ≠ [] ∧ ' ' ∉ a.toList ∧ '"' ∉ a.toList := by
  obtain ⟨hne, hchars⟩ : a.toList.isEmpty = false ∧ _ := by simpa only [needsQuotes, Bool.or_eq_false_iff] using h
  rw [List.any_eq_false] at hchars
  exact ⟨by simpa using hne, fun hmem => hchars _ hmem rfl, fun hmem => hchars _ hmem rfl⟩

/-- Words without a space end at the first one. -/
theorem word_append_inj {u v : List Char} (hu : ' ' ∉ u) (hv : ' ' ∉ v) (hr : Ends r) (hs : Ends s)
    (h : u ++ r = v ++ s) : u = v ∧ r = s := by
  -- where one word is longer, what it has more begins with the space behind the other
  rcases List.append_eq_append_iff.1 h with ⟨w, rfl, rfl⟩ | ⟨w, rfl, rfl⟩
  · cases w with
    | nil => simp
    | cons x w => exact absurd (by simp [hr x rfl]) hv
  · cases w with
    | nil => simp
    | cons x w => exact absurd (by simp [hs x rfl]) hu

theorem showArg_of_needsQuotes (h : needsQuotes a = true) : (showArg a).toList = Text.quotedChars a.toList := by
  rw [showArg, if_pos h, Text.quoted, String.toList_ofList]

theorem showArg_of_not_needsQuotes (h : needsQuotes a = false) : showArg a = a := by
  rw [showArg, if_neg (by simp [h])]

/-- A plain argument does not begin as a quoted one does. -/
theorem plain_ne_quoted (ha : needsQuotes a = false) (hb : needsQuotes b = true) :
    (showArg a).toList ++ r ≠ (showArg b).toList ++ s := by
  obtain ⟨hne, -, hquote⟩ := plain_of_not_needsQuotes ha
  rw [showArg_of_not_needsQuotes ha, showArg_of_needsQuotes hb, Text.quotedChars]
  obtain ⟨x, w, hx⟩ := List.exists_cons_of_ne_nil hne
  rw [hx] at hquote ⊢
  intro h
  have hhead : x = '"' := by simpa using congrArg List.head? h
  exact hquote (by simp [hhead])

/-- An argument is told from what is shown of it, and so is its end. -/
theorem showArg_append_inj (hr : Ends r) (hs : Ends s) (h : (showArg a).toList ++ r = (showArg b).toList ++ s) :
    a = b ∧ r = s := by
  cases ha : needsQuotes a <;> cases hb : needsQuotes b
  case false.false =>
    rw [showArg_of_not_needsQuotes ha, showArg_of_not_needsQuotes hb] at h
    obtain ⟨hab, hrs⟩ := word_append_inj (plain_of_not_needsQuotes ha).2.1 (plain_of_not_needsQuotes hb).2.1 hr hs h
    exact ⟨String.toList_inj.1 hab, hrs⟩
  case false.true => exact absurd h (plain_ne_quoted ha hb)
  case true.false => exact absurd h.symm (plain_ne_quoted hb ha)
  case true.true =>
    rw [showArg_of_needsQuotes ha, showArg_of_needsQuotes hb] at h
    obtain ⟨hab, hrs⟩ := Text.quotedChars_append_inj h
    exact ⟨String.toList_inj.1 hab, hrs⟩

theorem showArg_ne_nil (a : String) : (showArg a).toList ≠ [] := by
  cases ha : needsQuotes a with
  | false => rw [showArg_of_not_needsQuotes ha]; exact (plain_of_not_needsQuotes ha).1
  | true => rw [showArg_of_needsQuotes ha]; simp [Text.quotedChars]

/-! ## Argument vectors -/

/-- All arguments but the first, each with the space in front of it. -/
def shownRest (as : List String) : List Char := as.flatMap fun a => ' ' :: (showArg a).toList

theorem ends_shownRest (as : List String) : Ends (shownRest as) := by
  cases as <;> simp [Ends, shownRest]

theorem toList_joined (a : String) (as : List String) :
    (" ".intercalate ((a :: as).map showArg)).toList = (showArg a).toList ++ shownRest as := by
  induction as generalizing a with
  | nil => simp [shownRest]
  | cons b as ih =>
    have hrest := ih b
    rw [List.map_cons] at hrest
    rw [List.map_cons, List.map_cons, String.intercalate_cons_cons, String.toList_append, String.toList_append, hrest]
    simp [shownRest]

theorem shownRest_inj (h : shownRest as = shownRest bs) : as = bs := by
  induction as generalizing bs with
  | nil =>
    cases bs with
    | nil => rfl
    | cons b bs => simp [shownRest] at h
  | cons a as ih =>
    cases bs with
    | nil => simp [shownRest] at h
    | cons b bs =>
      have hshown : (showArg a).toList ++ shownRest as = (showArg b).toList ++ shownRest bs := by
        simpa [shownRest] using h
      obtain ⟨rfl, hrest⟩ := showArg_append_inj (ends_shownRest as) (ends_shownRest bs) hshown
      rw [ih hrest]

theorem joined_ne_empty (a : String) (as : List String) : " ".intercalate ((a :: as).map showArg) ≠ "" := by
  intro h
  have hnil := congrArg String.toList h
  rw [toList_joined] at hnil
  exact showArg_ne_nil a (List.append_eq_nil_iff.1 hnil).1

theorem joined_inj (h : " ".intercalate (as.map showArg) = " ".intercalate (bs.map showArg)) : as = bs := by
  cases as with
  | nil =>
    cases bs with
    | nil => rfl
    | cons b bs => exact absurd h.symm (joined_ne_empty b bs)
  | cons a as =>
    cases bs with
    | nil => exact absurd h (joined_ne_empty a as)
    | cons b bs =>
      have hlists := congrArg String.toList h
      rw [toList_joined, toList_joined] at hlists
      obtain ⟨rfl, hrest⟩ := showArg_append_inj (ends_shownRest as) (ends_shownRest bs) hlists
      rw [shownRest_inj hrest]

/-- **One line, one argument vector.**  What is shown of two commands is the same only if their arguments are. -/
theorem display_inj : display c = display d ↔ c.args = d.args := by
  constructor
  · exact joined_inj
  · intro h
    rw [display, display, h]

end

end Command

end Overseer
