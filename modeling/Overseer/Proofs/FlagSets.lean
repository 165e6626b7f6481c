import Mathlib.Data.List.Forall2
import Mathlib.Data.Nat.Bitwise
import Overseer.Command.Flags

/-!
# Sets of flags

A list of flags stands for a set: it is read as the least word that holds the bits of every name it mentions, so the
order of the names, their number, empty words and unknown ones do not matter.

    read s ⊆ m  ↔  every known name that s mentions has its bits in m
    a ++ c :: b mentions what a mentions and what b mentions              when c is a separator

Words are compared as the sets of their bits: `BitsIn a b` is `a ||| b = b`, and a word is told by the words above it.

Main statement: `read_denotes`.
-/

namespace Overseer

namespace Text

/-- A stretch of a text that is free of a class of characters, and reaches to one of them or to the end on
both sides. -/
def IsField (p : Char → Bool) (s w : List Char) : Prop :=
  (∀ c ∈ w, p c = false) ∧ ∃ before after, s = before ++ (w ++ after) ∧
    (∀ c ∈ before.getLast?, p c = true) ∧ ∀ c ∈ after.head?, p c = true

section

variable {p : Char → Bool} {s w : List Char}

/-! ## Fields of a text -/

theorem fieldsBy_of_free (h : ∀ c ∈ s, p c = false) : fieldsBy p s = [s] := by
  induction s with
  | nil => rfl
  | cons c s ih =>
    rw [List.forall_mem_cons] at h
    rw [fieldsBy, ih h.2, if_neg (by simp [h.1])]

theorem isField_of_free (h : ∀ c ∈ w, p c = false) : IsField p w w := ⟨h, [], [], by simp, by simp, by simp⟩

/-- The first field is taken off, and the text behind its separator is shorter. -/
theorem isField_of_mem_fieldsBy (h : w ∈ fieldsBy p s) : IsField p s w := by
  induction hn : s.length using Nat.strong_induction_on generalizing s with
  | _ n ih =>
    cases hfind : s.find? p with
    | none =>
      have hfree : ∀ c ∈ s, p c = false := by simpa using hfind
      rw [fieldsBy_of_free hfree, List.mem_singleton] at h
      subst h
      exact isField_of_free hfree
    | some c =>
      obtain ⟨hc, a, b, rfl, ha⟩ := List.find?_eq_some_iff_append.1 hfind
      have hfree : ∀ c ∈ a, p c = false := by simpa using ha
      rw [fieldsBy_append p a b c hc, fieldsBy_of_free hfree] at h
      rcases List.mem_cons.1 h with rfl | h
      · exact ⟨hfree, [], c :: b, rfl, by simp, by simpa using hc⟩
      · have hshorter : b.length < n := by
          rw [← hn, List.length_append, List.length_cons]
          omega
        obtain ⟨hw, before, after, rfl, hbefore, hafter⟩ := ih _ hshorter h rfl
        refine ⟨hw, a ++ c :: before, after, by simp, ?_, hafter⟩
        cases hlast : before.getLast? with
        | none => simpa [List.getLast?_eq_none_iff.1 hlast] using hc
        | some d => simpa [List.getLast?_cons, hlast] using hbefore d hlast

theorem mem_fieldsBy_of_isField (h : IsField p s w) : w ∈ fieldsBy p s := by
  obtain ⟨hw, before, after, rfl, hbefore, hafter⟩ := h
  have hhead : w ∈ fieldsBy p (w ++ after) := by
    cases after with
    | nil => simp [fieldsBy_of_free hw]
    | cons c after =>
      rw [fieldsBy_append p w after c (hafter c rfl), fieldsBy_of_free hw]
      exact List.mem_cons_self
  rcases List.eq_nil_or_concat before with rfl | ⟨front, c, rfl⟩
  · exact hhead
  · have hc : p c = true := hbefore c (by simp)
    rw [List.concat_eq_append, List.append_assoc, List.singleton_append, fieldsBy_append p front _ c hc]
    exact List.mem_append_right _ hhead

theorem mem_fieldsBy_iff : w ∈ fieldsBy p s ↔ IsField p s w :=
  ⟨isField_of_mem_fieldsBy, mem_fieldsBy_of_isField⟩

/-- Nothing is taken off a text without blanks. -/
theorem trimChars_of_free (h : ∀ c ∈ w, isBlank c = false) : trimChars w = w := by
  have hkept : ∀ t : List Char, (∀ c ∈ t, isBlank c = false) → t.dropWhile isBlank = t := fun t ht => by
    cases t with
    | nil => rfl
    | cons c t => exact List.dropWhile_cons_of_neg (by simp [ht c List.mem_cons_self])
  rw [trimChars, hkept w h, hkept w.reverse fun c hc => h c (List.mem_reverse.1 hc), List.reverse_reverse]

/-! ## Capitals and small letters -/

theorem toNat_toLower (c : Char) :
    c.toLower.toNat = if 65 ≤ c.toNat ∧ c.toNat ≤ 90 then c.toNat + 32 else c.toNat := by
  have hcapital : c.val ≥ 'A'.val ∧ c.val ≤ 'Z'.val ↔ 65 ≤ c.toNat ∧ c.toNat ≤ 90 := Iff.rfl
  unfold Char.toLower
  simp only [hcapital]
  split
  · next h =>
    have hsmall : c.val.toNat ≤ 90 := h.2
    show (c.val + ('a'.val - 'A'.val)).toNat = c.val.toNat + 32
    rw [UInt32.toNat_add, Nat.mod_eq_of_lt]
    · rfl
    · show c.val.toNat + 32 < _
      omega
  · rfl

theorem toNat_toUpper (c : Char) :
    c.toUpper.toNat = if 97 ≤ c.toNat ∧ c.toNat ≤ 122 then c.toNat - 32 else c.toNat := by
  have hsmall : 'a'.val ≤ c.val ∧ c.val ≤ 'z'.val ↔ 97 ≤ c.toNat ∧ c.toNat ≤ 122 := Iff.rfl
  unfold Char.toUpper
  simp only [hsmall]
  split
  · next h =>
    have hlow : 97 ≤ c.val.toNat := h.1
    have hhigh : c.val.toNat ≤ 122 := h.2
    show (c.val + ('A'.val - 'a'.val)).toNat = c.val.toNat - 32
    rw [UInt32.toNat_add]
    show (c.val.toNat + 4294967264) % 4294967296 = _
    omega
  · rfl

end

end Text

namespace Command.Flags

open Text

/-! ## Words as sets of bits -/

/-- All bits of `a` are in `b`. -/
def BitsIn (a b : UInt32) : Prop := a ||| b = b

/-! ## What a list of flags says -/

/-- All that a list may name: the single flags, and all of them at once. -/
def known : List (String × UInt32) := ("all", all) :: named

/-- How a character of a name may be written: as it is, a small letter as its capital, a hyphen as an underscore. -/
inductive Writes : Char → Char → Prop
  | same (c : Char) : Writes c c
  | capital {c : Char} (h : c.isLower = true) : Writes c.toUpper c
  | underscore : Writes '_' '-'

/-- A word spells a name, character by character. -/
def Spells (w : List Char) (name : String) : Prop := List.Forall₂ Writes w name.toList

/-- A text has a word that spells a name; the words of a text are what stands between its separators. -/
def Mentions (s : List Char) (name : String) : Prop := ∃ w, IsField isSeparator s w ∧ Spells w name

/-- A text spells some names in their order, with separators behind, between and before them. -/
inductive Lists : List String → List Char → Prop
  | nil : Lists [] []
  | last {w : List Char} {n : String} (hw : Spells w n) : Lists [n] w
  | skip {ns : List String} {s : List Char} {c : Char} (hc : isSeparator c = true) (h : Lists ns s) :
    Lists ns (c :: s)
  | cons {w : List Char} {n : String} {ns : List String} {s : List Char} {c : Char} (hw : Spells w n)
      (hc : isSeparator c = true) (h : Lists ns s) : Lists (n :: ns) (w ++ c :: s)

section

variable {a b m x : UInt32} {s t w : List Char} {c d : Char} {n k : String} {ns : List String} {r : String × UInt32}
  {f : Flags}

theorem bitsIn_refl (a : UInt32) : BitsIn a a := UInt32.or_self

theorem zero_bitsIn (m : UInt32) : BitsIn 0 m := UInt32.zero_or

theorem or_bitsIn_iff : BitsIn (a ||| b) m ↔ BitsIn a m ∧ BitsIn b m := by
  unfold BitsIn
  constructor
  · intro h
    constructor
    · calc a ||| m = a ||| ((a ||| b) ||| m) := by rw [h]
        _ = (a ||| b) ||| m := by rw [← UInt32.or_assoc, ← UInt32.or_assoc, UInt32.or_self]
        _ = m := h
    · calc b ||| m = b ||| ((a ||| b) ||| m) := by rw [h]
        _ = (a ||| b) ||| m := by rw [← UInt32.or_assoc, UInt32.or_comm a b, ← UInt32.or_assoc, UInt32.or_self]
        _ = m := h
  · rintro ⟨ha, hb⟩
    rw [UInt32.or_assoc, hb, ha]

/-- A word is told by the words that hold its bits. -/
theorem eq_of_bitsIn_iff (h : ∀ m, BitsIn a m ↔ BitsIn b m) : a = b := by
  have hab : a ||| b = b := (h b).2 (bitsIn_refl b)
  have hba : b ||| a = a := (h a).1 (bitsIn_refl a)
  rw [← hba, UInt32.or_comm, hab]

theorem foldl_insert_bitsIn_iff {ws : List (List Char)} :
    BitsIn (ws.foldl (fun f w => f.insert (wordBits w)) f).bits m ↔
    BitsIn f.bits m ∧ ∀ w ∈ ws, BitsIn (wordBits w) m := by
  induction ws generalizing f with
  | nil => simp
  | cons w ws ih =>
    rw [List.foldl_cons, ih, List.forall_mem_cons, ← and_assoc]
    exact and_congr_left fun _ => or_bitsIn_iff

/-! ## Spelling -/

/-- Names are made of small letters and hyphens. -/
def IsNameChar (c : Char) : Prop := c.isLower = true ∨ c = '-'

theorem plain_known (hr : r ∈ known) : r.1 ≠ "" ∧ ∀ c ∈ r.1.toList, IsNameChar c := by
  have hplain : (known.all fun r => !r.1.isEmpty && r.1.toList.all fun c => c.isLower || c == '-') = true := by decide
  simp only [List.all_eq_true, Bool.and_eq_true, Bool.not_eq_true', String.isEmpty_eq_false_iff, Bool.or_eq_true,
    beq_iff_eq] at hplain
  exact hplain r hr

theorem plain_of_mem (h : n ∈ known.map Prod.fst) : n ≠ "" ∧ ∀ c ∈ n.toList, IsNameChar c := by
  obtain ⟨r, hr, rfl⟩ := List.mem_map.1 h
  exact plain_known hr

theorem isLower_iff : c.isLower = true ↔ 97 ≤ c.toNat ∧ c.toNat ≤ 122 := by
  have hplaces : c.isLower = (decide ('a'.val ≤ c.val) && decide (c.val ≤ 'z'.val)) := rfl
  rw [hplaces, Bool.and_eq_true, decide_eq_true_iff, decide_eq_true_iff]
  exact Iff.rfl

/-- The spelling of a character of a word. -/
def folded (c : Char) : Char := if c.toLower == '_' then '-' else c.toLower

theorem toList_spelling (w : List Char) : (spelling w).toList = w.map folded := by
  rw [spelling, String.toList_ofList, List.map_map]
  rfl

theorem IsNameChar.toNat_cases (hc : IsNameChar c) : 97 ≤ c.toNat ∧ c.toNat ≤ 122 ∨ c.toNat = 45 := by
  rcases hc with hc | rfl
  · exact .inl (isLower_iff.1 hc)
  · exact .inr rfl

theorem folded_of_toLower (h : d.toLower = c) (hc : IsNameChar c) : folded d = c := by
  have hbar : (c == '_') = false := beq_false_of_ne fun hbar => absurd hc.toNat_cases (by rw [hbar]; decide)
  simp [folded, h, hbar]

theorem writes_of_toLower (h : d.toLower = c) : Writes d c := by
  have hlower := toNat_toLower d
  have hupper := toNat_toUpper c
  rw [h] at hlower
  split at hlower
  · next hd =>
    have hcapital : d = c.toUpper := Char.toNat_inj.1 (by rw [hupper, if_pos (by omega)]; omega)
    exact hcapital ▸ .capital (isLower_iff.2 (by omega))
  · next hd => exact Char.toNat_inj.1 hlower ▸ .same c

theorem eq_underscore_of_toLower (h : d.toLower = '_') : d = '_' := by
  have hlower := toNat_toLower d
  have hplace : '_'.toNat = 95 := rfl
  rw [h, hplace] at hlower
  split at hlower
  · omega
  · exact Char.toNat_inj.1 hlower.symm

theorem writes_of_folded (h : folded d = c) : Writes d c := by
  unfold folded at h
  split at h
  · next hbar =>
    rw [eq_underscore_of_toLower (beq_iff_eq.1 hbar), ← h]
    exact .underscore
  · exact writes_of_toLower h

theorem folded_of_writes (h : Writes d c) (hc : IsNameChar c) : folded d = c := by
  have hplaces := hc.toNat_cases
  cases h with
  | same => exact folded_of_toLower (Char.toNat_inj.1 (by rw [toNat_toLower, if_neg (by omega)])) hc
  | capital hlower =>
    have hsmall := isLower_iff.1 hlower
    have hback : c.toUpper.toLower = c := Char.toNat_inj.1 (by
      rw [toNat_toLower, toNat_toUpper, if_pos hsmall, if_pos (by omega)]
      omega)
    exact folded_of_toLower hback hc
  | underscore => rfl

theorem folded_eq_iff (hc : IsNameChar c) : folded d = c ↔ Writes d c :=
  ⟨writes_of_folded, fun h => folded_of_writes h hc⟩

theorem map_folded_eq_iff {cs : List Char} (h : ∀ c ∈ cs, IsNameChar c) :
    w.map folded = cs ↔ List.Forall₂ Writes w cs := by
  induction cs generalizing w with
  | nil => simp
  | cons c cs ih =>
    rw [List.forall_mem_cons] at h
    cases w with
    | nil => simp
    | cons d w => simp [folded_eq_iff h.1, ih h.2]

theorem spelling_eq_iff (h : ∀ c ∈ n.toList, IsNameChar c) : spelling w = n ↔ Spells w n := by
  rw [← String.toList_inj, toList_spelling, map_folded_eq_iff h, Spells]

theorem not_separator_of_writes (h : Writes d c) (hc : IsNameChar c) : isSeparator d = false := by
  have hplaces := hc.toNat_cases
  have hd : 45 ≤ d.toNat ∧ d.toNat ≤ 122 := by
    cases h with
    | same => omega
    | capital hlower =>
      have hsmall := isLower_iff.1 hlower
      rw [toNat_toUpper, if_pos hsmall]
      omega
    | underscore => exact ⟨by decide, by decide⟩
  have hcomma : d ≠ ',' := fun h => absurd hd.1 (by rw [h]; decide)
  have hbar : d ≠ '|' := fun h => absurd hd.2 (by rw [h]; decide)
  simp [isSeparator, isBlank, hcomma, hbar]
  omega

theorem free_of_writes {cs : List Char} (h : List.Forall₂ Writes w cs) (hcs : ∀ c ∈ cs, IsNameChar c) :
    ∀ d ∈ w, isSeparator d = false := by
  induction h with
  | nil => simp
  | cons hd _ ih =>
    rw [List.forall_mem_cons] at hcs ⊢
    exact ⟨not_separator_of_writes hd hcs.1, ih hcs.2⟩

theorem trimChars_of_isField (h : IsField isSeparator s w) : trimChars w = w :=
  trimChars_of_free fun c hc => (Bool.or_eq_false_iff.1 (h.1 c hc)).2

/-! ## What a text mentions -/

theorem mentions_iff : Mentions s n ↔ ∃ w ∈ fieldsBy isSeparator s, Spells w n := by
  simp only [Mentions, mem_fieldsBy_iff]

theorem mentions_append (hc : isSeparator c = true) : Mentions (s ++ c :: t) n ↔ Mentions s n ∨ Mentions t n := by
  simp only [mentions_iff, fieldsBy_append isSeparator s t c hc, List.mem_append, or_and_right, exists_or]

/-- For a known name, what a text mentions can be decided. -/
theorem mentions_iff_spelling (hk : k ∈ known.map Prod.fst) :
    Mentions s k ↔ ∃ w ∈ fieldsBy isSeparator s, spelling w = k := by
  simp only [mentions_iff, spelling_eq_iff (plain_of_mem hk).2]

theorem not_mentions_nil (hk : k ∈ known.map Prod.fst) : ¬ Mentions [] k := by
  rw [mentions_iff_spelling hk, fieldsBy_of_free (by simp)]
  simpa [spelling] using (plain_of_mem hk).1.symm

/-- A word that spells one known name spells no other. -/
theorem Spells.mentions_iff (h : Spells w n) (hn : n ∈ known.map Prod.fst) (hk : k ∈ known.map Prod.fst) :
    Mentions w k ↔ k = n := by
  rw [mentions_iff_spelling hk, fieldsBy_of_free (free_of_writes h (plain_of_mem hn).2)]
  simp [(spelling_eq_iff (plain_of_mem hn).2).2 h, eq_comm]

/-- A text that spells known names mentions these and no other known name. -/
theorem Lists.mentions_iff (h : Lists ns s) (hns : ∀ n ∈ ns, n ∈ known.map Prod.fst)
    (hk : k ∈ known.map Prod.fst) :
    Mentions s k ↔ k ∈ ns := by
  induction h with
  | nil => simpa using not_mentions_nil hk
  | last hw => rw [hw.mentions_iff (hns _ List.mem_cons_self) hk, List.mem_singleton]
  | skip hc _ ih =>
    rw [← List.nil_append (_ :: _), mentions_append hc, or_iff_right (not_mentions_nil hk)]
    exact ih hns
  | cons hw hc _ ih =>
    rw [List.forall_mem_cons] at hns
    rw [mentions_append hc, hw.mentions_iff hns.1 hk, List.mem_cons]
    exact or_congr_right (ih hns.2)

/-! ## What is read -/

/-- The bits of a name; `wordBits` goes by the spelling of a word alone. -/
theorem wordBits_of_spelling (hr : r ∈ known) (h : spelling w = r.1) : wordBits w = r.2 := by
  rw [wordBits, h]
  clear h
  revert r
  decide

theorem wordBits_of_unknown (h : ∀ r ∈ known, spelling w ≠ r.1) : wordBits w = 0 := by
  unfold known at h
  rw [List.forall_mem_cons] at h
  have hnone : (named.find? fun r => r.1 == spelling w) = none := by
    rw [List.find?_eq_none]
    intro r hr
    simpa using (h.2 r hr).symm
  rw [wordBits, if_neg (by simpa using h.1), hnone]

theorem wordBits_bitsIn_iff : BitsIn (wordBits w) m ↔ ∀ r ∈ known, Spells w r.1 → BitsIn r.2 m := by
  by_cases h : ∃ r ∈ known, spelling w = r.1
  · obtain ⟨r, hr, hw⟩ := h
    rw [wordBits_of_spelling hr hw]
    constructor
    · intro hin q hq hspells
      rw [← spelling_eq_iff (plain_known hq).2] at hspells
      rwa [← wordBits_of_spelling hq hspells, wordBits_of_spelling hr hw]
    · intro hall
      exact hall r hr ((spelling_eq_iff (plain_known hr).2).1 hw)
  · have hunknown : ∀ r ∈ known, spelling w ≠ r.1 := fun r hr hw => h ⟨r, hr, hw⟩
    rw [wordBits_of_unknown hunknown]
    refine iff_of_true (zero_bitsIn m) fun r hr hspells => ?_
    exact absurd ((spelling_eq_iff (plain_known hr).2).2 hspells) (hunknown r hr)

/-- What is read of a text is the least word that holds the bits of all names that the text mentions. -/
theorem read_bitsIn_iff {s : String} :
    BitsIn (read s).bits m ↔ ∀ r ∈ known, Mentions s.toList r.1 → BitsIn r.2 m := by
  rw [read, foldl_insert_bitsIn_iff]
  simp only [wordBits_bitsIn_iff, mentions_iff]
  constructor
  · rintro ⟨-, h⟩ r hr ⟨w, hw, hspells⟩
    exact h w hw r hr hspells
  · intro h
    exact ⟨zero_bitsIn m, fun w hw r hr hspells => h r hr ⟨w, hw, hspells⟩⟩

/-! ## Reading names back -/

theorem and_or_distrib (x a b : UInt32) : x &&& (a ||| b) = x &&& a ||| x &&& b := by
  rw [← UInt32.toNat_inj]
  simp only [UInt32.toNat_or, UInt32.toNat_and]
  exact Nat.and_or_distrib_left ..

/-- A single bit is set or it is not. -/
theorem and_bit {i : Nat} (hb : b.toNat = 2 ^ i) (x : UInt32) : x &&& b = b ∨ x &&& b = 0 := by
  simp only [← UInt32.toNat_inj, UInt32.toNat_and, hb, Nat.and_two_pow]
  cases x.toNat.testBit i with
  | true => left; simp
  | false => right; simp

theorem and_bitsIn_iff (hr : r ∈ named) : BitsIn (f.bits &&& r.2) m ↔ (f.contains r.2 = true → BitsIn r.2 m) := by
  have hbits : ∀ r ∈ named, ∃ i < 6, r.2.toNat = 2 ^ i := by decide
  obtain ⟨i, -, hi⟩ := hbits r hr
  rw [contains, beq_iff_eq]
  rcases and_bit hi f.bits with hset | hclear
  · rw [hset]
    exact ⟨fun h _ => h, fun h => h rfl⟩
  · rw [hclear]
    refine iff_of_true (zero_bitsIn m) fun hzero => ?_
    rw [← hzero]
    exact zero_bitsIn m

theorem and_foldl_bitsIn_iff {rows : List (String × UInt32)} : BitsIn (x &&& rows.foldl (fun m r => m ||| r.2) a) m ↔
    BitsIn (x &&& a) m ∧ ∀ r ∈ rows, BitsIn (x &&& r.2) m := by
  induction rows generalizing a with
  | nil => simp
  | cons r rows ih =>
    rw [List.foldl_cons, ih, and_or_distrib, or_bitsIn_iff, List.forall_mem_cons, and_assoc]

theorem and_all_bitsIn_iff : BitsIn (f.bits &&& all) m ↔ ∀ r ∈ named, f.contains r.2 = true → BitsIn r.2 m := by
  have hzero : BitsIn (f.bits &&& 0) m := by
    rw [UInt32.and_zero]
    exact zero_bitsIn m
  rw [all, and_foldl_bitsIn_iff, and_iff_right hzero]
  exact forall₂_congr fun r hr => and_bitsIn_iff hr

theorem mem_names_iff (hr : r ∈ known) : r.1 ∈ f.names ↔ r ∈ named ∧ f.contains r.2 = true := by
  have hone : ∀ r ∈ known, ∀ q ∈ named, q.1 = r.1 → q = r := by decide
  simp only [names, List.mem_map, List.mem_filter]
  constructor
  · rintro ⟨q, hq, hname⟩
    rwa [← hone r hr q hq.1 hname]
  · intro h
    exact ⟨r, h, rfl⟩

end

/-- **Lists of flags are sets.**  A separator between two texts stands for a union; texts that mention the same known
names are read alike, whatever else they hold; and the names of the set flags, in any writing and with any separators,
give back those flags that have names.  Words hold no blanks, so that there is nothing to trim. -/
theorem read_denotes :
    (∀ (a b : String) (c : Char), c = ',' ∨ c = '|' ∨ isBlank c = true →
      (read (a ++ String.singleton c ++ b)).bits = (read a).bits ||| (read b).bits) ∧
    (∀ s t : String, (∀ r ∈ known, Mentions s.toList r.1 ↔ Mentions t.toList r.1) → read s = read t) ∧
    (∀ (f : Flags) (s : String), Lists f.names s.toList → (read s).bits = f.bits &&& all) ∧
    ∀ s w, IsField isSeparator s w → trimChars w = w := by
  refine ⟨fun a b c hc => eq_of_bitsIn_iff fun m => ?_, fun s t h => ?_, fun f s h => eq_of_bitsIn_iff fun m => ?_,
    fun s w => trimChars_of_isField⟩
  · have hsep : isSeparator c = true := by simpa [isSeparator, or_assoc] using hc
    have htext : (a ++ String.singleton c ++ b).toList = a.toList ++ c :: b.toList := by simp
    rw [or_bitsIn_iff, read_bitsIn_iff, read_bitsIn_iff, read_bitsIn_iff, htext]
    simp only [mentions_append hsep, or_imp]
    exact forall₂_and
  · have hbits : (read s).bits = (read t).bits := eq_of_bitsIn_iff fun m => by
      rw [read_bitsIn_iff, read_bitsIn_iff]
      exact forall₂_congr fun r hr => by rw [h r hr]
    exact congrArg Flags.mk hbits
  · have hnames : ∀ n ∈ f.names, n ∈ known.map Prod.fst := fun n hn => by
      obtain ⟨r, hr, rfl⟩ := List.mem_map.1 hn
      exact List.mem_map_of_mem (List.mem_cons_of_mem _ (List.mem_filter.1 hr).1)
    rw [read_bitsIn_iff, and_all_bitsIn_iff]
    constructor
    · intro hread r hr hset
      have hr' : r ∈ known := List.mem_cons_of_mem _ hr
      exact hread r hr' ((h.mentions_iff hnames (List.mem_map_of_mem hr')).2 ((mem_names_iff hr').2 ⟨hr, hset⟩))
    · intro hall r hr hmentions
      obtain ⟨hr', hset⟩ := (mem_names_iff hr).1 ((h.mentions_iff hnames (List.mem_map_of_mem hr)).1 hmentions)
      exact hall r hr' hset

/-- Unknown and empty words, doubled names, capitals, underscores, and two bits without a name. -/
theorem read_denotes_mixed :
    (read ("search-path, bogus" ++ String.singleton '|' ++ "ALL")).bits =
      (read "search-path, bogus").bits ||| (read "ALL").bits ∧
    read "bogus,,NEW-process_group search-path" = read "Search_Path|search-path|new-process-group" ∧
    (⟨0xC5⟩ : Flags).names = ["search-path", "stdout-to-dev-null"] ∧
    (read "Search_Path |STDOUT-to_dev-NULL").bits = 0xC5 &&& all ∧
    trimChars "bogus".toList = "bogus".toList := by
  have hsame : ∀ r ∈ known, Mentions "bogus,,NEW-process_group search-path".toList r.1 ↔
      Mentions "Search_Path|search-path|new-process-group".toList r.1 := fun r hr => by
    rw [mentions_iff_spelling (List.mem_map_of_mem hr), mentions_iff_spelling (List.mem_map_of_mem hr)]
    revert r
    decide
  have hnames : (⟨0xC5⟩ : Flags).names = ["search-path", "stdout-to-dev-null"] := by decide
  have hspells : ∀ w n, n ∈ known.map Prod.fst → spelling w = n → Spells w n := fun w n hn =>
    (spelling_eq_iff (plain_of_mem hn).2).1
  have hlists : Lists (⟨0xC5⟩ : Flags).names "Search_Path |STDOUT-to_dev-NULL".toList := by
    rw [hnames]
    refine .cons (w := "Search_Path".toList) (c := ' ') (hspells _ _ (by decide) (by decide)) (by decide) ?_
    exact .skip (c := '|') (by decide) (.last (hspells "STDOUT-to_dev-NULL".toList _ (by decide) (by decide)))
  have hword : IsField isSeparator "bogus,x".toList "bogus".toList := mem_fieldsBy_iff.1 (by decide)
  exact ⟨read_denotes.1 _ _ _ (.inr (.inl rfl)), read_denotes.2.1 _ _ hsame, hnames,
    read_denotes.2.2.1 _ _ hlists, read_denotes.2.2.2 _ _ hword⟩

end Command.Flags

end Overseer
