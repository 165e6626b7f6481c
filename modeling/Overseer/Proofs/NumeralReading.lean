import Mathlib.Data.List.Basic
import Overseer.Json.Writer
import Overseer.Proofs.Numerals

/-!
# Reading numerals

A numeral is read as a whole, whatever stands behind it, if that cannot go on with it.  What it is read as is
left open: a numeral may also be refused, and then it is refused with anything behind it.

    Stops r           =  r is empty or begins with a comma or a closing bracket
    Consumes read cs  =  there is an answer to cs, and cs ++ r is read as it, with r left, if Stops r

What a writer makes of a number is a numeral.

Main statements: `readValue_numeral`, `isNumeral_intChars`, `isNumeral_floatChars`.
-/

namespace Overseer.Json

/-- The value of a numeral that stands alone. -/
def readNumeral (cs : List Char) : Option Value := (readValue 1 0 cs).map (·.1)

/-- What may stand behind a value: nothing, a comma or a closing bracket. -/
def Stops (r : List Char) : Prop := ∀ c ∈ r.head?, c = ',' ∨ c = ']' ∨ c = closeBrace

/-- A reader takes these characters as a whole and leaves the rest, if it takes anything. -/
def Consumes (read : List Char → Parse Value) (cs : List Char) : Prop :=
  ∃ o : Option Value, ∀ r, Stops r → read (cs ++ r) = o.map fun v => (v, r)

variable {c : Char} {cs ds r : List Char} {n fuel depth : Nat}

/-! ## Numerals -/

theorem Stops.digitFree (h : Stops r) : DigitFree r := by
  intro c hc
  rcases h c hc with rfl | rfl | rfl <;> decide

/-- A character that may stand behind a value continues no numeral. -/
theorem Stops.ne (h : Stops (c :: r)) :
    isDigit c = false ∧ c ≠ '.' ∧ c ≠ 'e' ∧ c ≠ 'E' ∧ c ≠ '+' ∧ c ≠ '-' := by
  rcases h c rfl with rfl | rfl | rfl <;> decide

theorem digitFree_append (hcs : DigitFree cs) (hr : Stops r) : DigitFree (cs ++ r) := by
  cases cs with
  | nil => exact hr.digitFree
  | cons c cs => exact hcs

theorem skipDigits_append (hds : ∀ c ∈ ds, isDigit c = true) (hr : DigitFree r) (count : Nat) :
    skipDigits count (ds ++ r) = (count + ds.length, r) := by
  induction ds generalizing count with
  | nil =>
    cases r with
    | nil => rfl
    | cons c r => simp [skipDigits, hr c (by simp)]
  | cons c ds ih =>
    rw [List.cons_append, skipDigits, if_pos (hds c List.mem_cons_self),
      ih (fun d hd => hds d (List.mem_cons_of_mem c hd)), List.length_cons, Nat.add_assoc, Nat.add_comm 1]

/-- Digits that are not taken any more are left to be passed over; what comes behind them makes no difference. -/
theorem takeDigits_split (hds : ∀ c ∈ ds, isDigit c = true) (n count : Nat) :
    ∃ m k ds', (∀ c ∈ ds', isDigit c = true) ∧
    ∀ r, DigitFree r → takeDigits n count (ds ++ r) = (m, k, ds' ++ r) := by
  induction ds generalizing n count with
  | nil =>
    refine ⟨n, count, [], by simp, fun r hr => ?_⟩
    cases r with
    | nil => rfl
    | cons c r => simp [takeDigits, hr c (by simp)]
  | cons c ds ih =>
    have hrest : ∀ d ∈ ds, isDigit d = true := fun d hd => hds d (List.mem_cons_of_mem c hd)
    by_cases hfits : n * 10 + digitValue c < Word.size64
    · obtain ⟨m, k, ds', hds', htake⟩ := ih hrest (n * 10 + digitValue c) (count + 1)
      refine ⟨m, k, ds', hds', fun r hr => ?_⟩
      rw [List.cons_append, takeDigits, if_pos (by simp [hds c, hfits]), htake r hr]
    · -- the first digit that does not fit is left, and so are all those behind it
      refine ⟨n, count, c :: ds, hds, fun r _ => ?_⟩
      rw [List.cons_append, takeDigits, if_neg (by simp [hfits])]

theorem exponentDigits_split (hds : ∀ c ∈ ds, isDigit c = true) (n : Nat) :
    ∃ x, ∀ r, DigitFree r → exponentDigits n (ds ++ r) = (x, r) := by
  induction ds generalizing n with
  | nil =>
    refine ⟨some n, fun r hr => ?_⟩
    cases r with
    | nil => rfl
    | cons c r => simp [exponentDigits, hr c (by simp)]
  | cons c ds ih =>
    have hrest : ∀ d ∈ ds, isDigit d = true := fun d hd => hds d (List.mem_cons_of_mem c hd)
    by_cases hlarge : maxExponent < n * 10 + digitValue c
    · refine ⟨none, fun r hr => ?_⟩
      rw [List.cons_append, exponentDigits, if_pos (hds c List.mem_cons_self), if_pos hlarge,
        skipDigits_append hrest hr]
    · obtain ⟨x, hx⟩ := ih hrest (n * 10 + digitValue c)
      refine ⟨x, fun r hr => ?_⟩
      rw [List.cons_append, exponentDigits, if_pos (hds c List.mem_cons_self), if_neg hlarge, hx r hr]

theorem withFloat_eq (b : Option UInt64) (r : List Char) :
    withFloat b r = (b.map Value.float).map fun v => (v, r) := by
  cases b <;> rfl

/-- The digits of an exponent behind its sign. -/
theorem consumes_exponent (negative : Bool) (n : Nat) (e : Int) (hds : ∀ d ∈ ds, isDigit d = true)
    (hc : c = '+' ∨ c = '-') :
    Consumes (readExponent negative n e) (c :: ds) := by
  cases ds with
  | nil =>
    refine ⟨none, fun r hr => ?_⟩
    cases r with
    | nil => rcases hc with rfl | rfl <;> rfl
    | cons d r => rcases hc with rfl | rfl <;> simp [readExponent, hr.ne]
  | cons d ds =>
    have hd : isDigit d = true := hds d List.mem_cons_self
    obtain ⟨x, hx⟩ := exponentDigits_split (fun d' hd' => hds d' (List.mem_cons_of_mem d hd')) (digitValue d)
    cases x with
    | none =>
      -- too many digits: too large a number is refused, and too small a one is zero
      refine ⟨if n ≠ 0 ∧ c = '+' then none else (floatOfParts negative 0 0).map Value.float, fun r hr => ?_⟩
      rcases hc with rfl | rfl <;> simp only [List.cons_append, readExponent, hd, if_true, hx r hr.digitFree]
      · split <;> simp_all [withFloat_eq]
      · simp [withFloat_eq]
    | some k =>
      refine ⟨(floatOfParts negative n (if c = '-' then e - k else e + k)).map Value.float, fun r hr => ?_⟩
      rcases hc with rfl | rfl <;>
        simp [readExponent, hd, hx r hr.digitFree, withFloat_eq]

/-- The end of a numeral with a point: nothing, or an exponent. -/
inductive IsScale : List Char → Prop
  | nil : IsScale []
  | exponent {c : Char} {ds : List Char} (hc : c = '+' ∨ c = '-') (hds : ∀ d ∈ ds, isDigit d = true) :
      IsScale ('e' :: c :: ds)

/-- What may stand behind the whole part of a written numeral. -/
inductive IsTail : List Char → Prop
  | scale {cs : List Char} (h : IsScale cs) : IsTail cs
  | fraction {ds cs : List Char} (hds : ∀ d ∈ ds, isDigit d = true) (h : IsScale cs) : IsTail ('.' :: ds ++ cs)

theorem IsScale.digitFree (h : IsScale cs) : DigitFree cs := by
  cases h with
  | nil => nofun
  | exponent => rintro c ⟨⟩; rfl

theorem IsTail.digitFree (h : IsTail cs) : DigitFree cs := by
  cases h with
  | scale h => exact h.digitFree
  | fraction => rintro c ⟨⟩; rfl

theorem consumes_scale (negative : Bool) (n : Nat) (e : Int) (h : IsScale cs) :
    Consumes (readScaled negative n e) cs := by
  cases h with
  | nil =>
    refine ⟨(floatOfParts negative n e).map Value.float, fun r hr => ?_⟩
    cases r with
    | nil => exact withFloat_eq _ _
    | cons c r =>
      obtain ⟨-, -, he, hE, -⟩ := hr.ne
      rw [List.nil_append, readScaled, withFloat_eq]
      · exact fun _ h => by cases h; exact he rfl
      · exact fun _ h => by cases h; exact hE rfl
  | exponent hc hds => exact consumes_exponent negative n e hds hc

theorem consumes_fraction (negative : Bool) (n : Nat) (e : Int) (hds : ∀ d ∈ ds, isDigit d = true)
    (h : IsScale cs) :
    Consumes (readFraction negative n e) (ds ++ cs) := by
  obtain ⟨m, k, ds', hds', htake⟩ := takeDigits_split hds n 0
  obtain ⟨o, ho⟩ := consumes_scale negative m (e - k) h
  cases ds with
  | nil =>
    refine ⟨none, fun r hr => ?_⟩
    have hfree := digitFree_append h.digitFree hr
    rw [List.nil_append]
    unfold readFraction
    split
    · rfl
    · next c r' heq =>
      rw [if_neg (by rw [hfree c (by rw [heq]; rfl)]; decide)]
      rfl
  | cons d ds =>
    refine ⟨o, fun r hr => ?_⟩
    have hfree := digitFree_append h.digitFree hr
    have hskip := skipDigits_append hds' hfree 0
    rw [List.append_assoc, List.cons_append, readFraction, if_pos (hds d List.mem_cons_self), ← List.cons_append,
      htake _ hfree]
    dsimp only
    rw [hskip, ho r hr]

/-- The number whose whole part stands alone: it is exact when it fits a word, and was not cut. -/
def wholeNumber (negative : Bool) (n dropped : Nat) : Option Value :=
  if dropped ≠ 0 then (floatOfParts negative n dropped).map .float
  else if !negative then some (.int n)
  else if n = 0 ∨ Word.half64 < n then (floatOfParts true n 0).map .float
  else some (.int (-(n : Int)))

theorem readTail_of_stops (n dropped : Nat) (hr : Stops r) :
    readTail negative n dropped r = (wholeNumber negative n dropped).map fun v => (v, r) := by
  have hlast : readTail negative n dropped r =
      if dropped ≠ 0 then withFloat (floatOfParts negative n dropped) r
      else if !negative then some (.int n, r)
      else if n = 0 ∨ Word.half64 < n then withFloat (floatOfParts true n 0) r
      else some (.int (-(n : Int)), r) := by
    unfold readTail
    split
    · exact absurd rfl hr.ne.2.1
    · exact absurd rfl hr.ne.2.2.1
    · exact absurd rfl hr.ne.2.2.2.1
    · rfl
  rw [hlast, withFloat_eq, withFloat_eq, wholeNumber]
  split_ifs <;> rfl

/-- The whole part of a numeral has been read, and some of its digits have been dropped. -/
theorem consumes_tail (negative : Bool) (n dropped : Nat) (h : IsTail cs) :
    Consumes (readTail negative n dropped) cs := by
  cases h with
  | fraction hds h => exact consumes_fraction negative n dropped hds h
  | scale h =>
    cases h with
    | exponent hc hds => exact consumes_exponent negative n dropped hds hc
    | nil => exact ⟨wholeNumber negative n dropped, fun r hr => readTail_of_stops n dropped hr⟩

/-- A numeral without its sign. -/
inductive IsUnsigned : List Char → Prop
  | mk {d : Char} {ds cs : List Char} (hds : ∀ c ∈ d :: ds, isDigit c = true) (h : IsTail cs) :
    IsUnsigned (d :: ds ++ cs)

theorem consumes_unsigned (negative : Bool) (h : IsUnsigned cs) : Consumes (readUnsigned negative) cs := by
  obtain @⟨d, ds, cs, hds, htail⟩ := h
  by_cases hzero : d = '0'
  · subst hzero
    cases ds with
    | nil =>
      obtain ⟨o, ho⟩ := consumes_tail negative 0 0 htail
      refine ⟨o, fun r hr => ?_⟩
      have hfree := digitFree_append htail.digitFree hr
      have hread := ho r hr
      simp only [List.cons_append, List.nil_append, readUnsigned, if_true]
      split
      · next c r' heq => rw [if_neg (by rw [hfree c (by rw [heq]; rfl)]; decide), ← hread]
      · next heq => rw [← hread, heq]
    | cons d ds =>
      -- a zero in front of other digits is refused; no written numeral has one, but the shape of numerals allows it
      refine ⟨none, fun r _ => ?_⟩
      simp [readUnsigned, hds d (by simp)]
  · obtain ⟨m, k, ds', hds', htake⟩ := takeDigits_split hds 0 0
    obtain ⟨o, ho⟩ := consumes_tail negative m ds'.length htail
    refine ⟨o, fun r hr => ?_⟩
    have hfree := digitFree_append htail.digitFree hr
    rw [List.append_assoc, List.cons_append]
    unfold readUnsigned
    dsimp only
    rw [if_neg hzero, if_pos (hds d List.mem_cons_self), ← List.cons_append, htake _ hfree]
    dsimp only
    rw [skipDigits_append hds' hfree, Nat.zero_add]
    exact ho r hr

/-- A numeral: digits with a sign, a fraction and an exponent, each of which may be missing. -/
inductive IsNumeral : List Char → Prop
  | plain {cs : List Char} (h : IsUnsigned cs) : IsNumeral cs
  | signed {cs : List Char} (h : IsUnsigned cs) : IsNumeral ('-' :: cs)

theorem ne_of_isDigit {d : Char} (hc : isDigit c = true) (hd : isDigit d = false) : c ≠ d := by
  rintro rfl
  rw [hc] at hd
  cases hd

/-- A digit opens a number, and nothing else. -/
theorem readValue_digit (hc : isDigit c = true) :
    readValue (fuel + 1) depth (c :: r) = readUnsigned false (c :: r) := by
  have hbrace : ¬ isOpenBrace c = true := by
    have hle := (isDigit_iff.1 hc).2
    simp [isOpenBrace]
    omega
  rw [readValue, if_neg (ne_of_isDigit hc rfl), if_neg (ne_of_isDigit hc rfl), if_neg hbrace,
    if_neg (ne_of_isDigit hc rfl), if_pos hc]

theorem stops_nil : Stops [] := nofun

theorem readValue_numeral (h : IsNumeral cs) (hr : Stops r) :
    readValue (fuel + 1) depth (cs ++ r) = (readNumeral cs).map fun v => (v, r) := by
  cases h with
  | plain h =>
    obtain ⟨o, ho⟩ := consumes_unsigned false h
    obtain @⟨d, ds, cs, hds, htail⟩ := h
    have hread : ∀ {f k r}, Stops r → readValue (f + 1) k (d :: ds ++ cs ++ r) = o.map fun v => (v, r) :=
      fun hr => (readValue_digit (hds d List.mem_cons_self)).trans (ho _ hr)
    have halone := hread (f := 0) (k := 0) stops_nil
    rw [List.append_nil] at halone
    rw [hread hr, readNumeral, halone]
    cases o <;> rfl
  | @signed cs h =>
    obtain ⟨o, ho⟩ := consumes_unsigned true h
    have halone := ho [] stops_nil
    rw [List.append_nil] at halone
    have hdash : ∀ f k r, readValue (f + 1) k ('-' :: r) = readUnsigned true r := fun f k r => by
      simp [readValue, isOpenBrace]
    rw [List.cons_append, hdash, ho r hr, readNumeral, hdash, halone]
    cases o <;> rfl

/-! ## Written numerals -/

theorem isUnsigned_intDigits (n : Nat) : IsUnsigned (Nat.toDigits 10 n) := by
  cases hds : Nat.toDigits 10 n with
  | nil => exact absurd hds Nat.toDigits_ne_nil
  | cons d ds =>
    rw [← List.append_nil (d :: ds)]
    exact .mk (fun c hc => isDigit_of_mem_toDigits (hds ▸ hc)) (.scale .nil)

theorem isNumeral_intChars (i : Int) : IsNumeral (intChars i) := by
  unfold intChars
  split
  · exact .signed (isUnsigned_intDigits _)
  · exact .plain (isUnsigned_intDigits _)

theorem isScale_exponentChars (e : Int) : IsScale (exponentChars e) := by
  unfold exponentChars digitChars
  split
  · exact .exponent (.inr rfl) fun d => isDigit_of_mem_toDigits
  · exact .exponent (.inl rfl) fun d => isDigit_of_mem_toDigits

theorem isUnsigned_of_digits (ds : List Char) (hds : ∀ c ∈ ds, isDigit c = true) (hne : ds ≠ []) (h : IsTail cs) :
    IsUnsigned (ds ++ cs) := by
  cases ds with
  | nil => exact absurd rfl hne
  | cons d ds => exact .mk hds h

theorem isTail_point (ds : List Char) (hds : ∀ c ∈ ds, isDigit c = true) : IsTail ('.' :: ds) := by
  have htail := IsTail.fraction hds .nil
  rwa [List.append_nil] at htail

theorem isDigit_zero : ∀ c ∈ ['0'], isDigit c = true := List.forall_mem_singleton.2 rfl

/-- A zero in front of the point. -/
theorem isUnsigned_zero (h : IsTail cs) : IsUnsigned ('0' :: cs) := isUnsigned_of_digits ['0'] isDigit_zero nofun h

theorem isUnsigned_decimalChars (digits : Nat) (e : Int) : IsUnsigned (decimalChars digits e) := by
  have hds : ∀ c ∈ digitChars digits, isDigit c = true := fun c => isDigit_of_mem_toDigits
  have hne : digitChars digits ≠ [] := Nat.toDigits_ne_nil
  have hzeros : ∀ k, ∀ c ∈ List.replicate k '0', isDigit c = true := fun k c hc => by
    rw [List.eq_of_mem_replicate hc]
    rfl
  unfold decimalChars
  dsimp only
  generalize digitChars digits = ds at hds hne
  split_ifs with hplace hwhole hpoint
  · rcases ds with _ | ⟨d, _ | ⟨d', ds⟩⟩
    · exact absurd rfl hne
    · exact isUnsigned_of_digits _ hds hne (.scale (isScale_exponentChars _))
    · exact isUnsigned_of_digits [d] (fun c hc => hds c (by simp_all)) (by simp)
        (.fraction (fun c hc => hds c (List.mem_cons_of_mem d hc)) (isScale_exponentChars _))
  · have hall : ∀ c ∈ ds ++ List.replicate e.toNat '0', isDigit c = true :=
      List.forall_mem_append.2 ⟨hds, hzeros _⟩
    exact isUnsigned_of_digits _ hall (List.append_ne_nil_of_left_ne_nil hne _) (isTail_point ['0'] isDigit_zero)
  · have htake : ds.take ((e + ds.length - 1).toNat + 1) ≠ [] := by simpa using hne
    exact isUnsigned_of_digits _ (fun c hc => hds c (List.mem_of_mem_take hc)) htake
      (isTail_point _ fun c hc => hds c (List.mem_of_mem_drop hc))
  · exact isUnsigned_zero (isTail_point _ (List.forall_mem_append.2 ⟨hzeros _, hds⟩))

theorem isNumeral_floatChars (bits : UInt64) : IsNumeral (floatChars bits) := by
  have hzero : IsUnsigned ['0', '.', '0'] := isUnsigned_zero (isTail_point ['0'] isDigit_zero)
  have hsign : ∀ {cs}, IsUnsigned cs → IsNumeral ((if Decimal.isNegative bits then ['-'] else []) ++ cs) := by
    intro cs h
    split
    · exact .signed h
    · exact .plain h
  unfold floatChars
  dsimp only
  split
  · exact hsign hzero
  · exact hsign (isUnsigned_decimalChars _ _)

end Overseer.Json
