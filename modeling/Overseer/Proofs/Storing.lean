import Mathlib.Data.List.Basic
import Overseer.Proofs.Rereading

/-!
# Values that survive writing

A value without floats, whose numbers fit a word of 64 bits and whose objects have their keys in order,
is read back as it was written, if its brackets nest no deeper than a reader goes.  What is written
stands on one line.

    v.reread n = some v        brackets of v at most n deep
    32 ≤ c for every character c of v.chars

Main statements: `Storable.reread_eq`, `printable_chars`.
-/

namespace Overseer.Json

/-- A value without floats, in the form in which values are kept: numbers of 64 bits with or without sign, members in
the order of their keys, each key once.  Its brackets nest at most `n` deep. -/
inductive Storable : (n : Nat) → Value → Prop
  | null (n : Nat) : Storable n .null
  | bool (n : Nat) (b : Bool) : Storable n (.bool b)
  | int (n : Nat) {i : Int} (low : -(Word.half64 : Int) ≤ i) (high : i < Word.size64) : Storable n (.int i)
  | text (n : Nat) (s : String) : Storable n (.text s)
  | array {n : Nat} {items : List Value} (held : ∀ v ∈ items, Storable n v) : Storable (n + 1) (.array items)
  | object {n : Nat} {ms : List (String × Value)} (sorted : (ms.map (·.1)).Pairwise (· < ·))
      (held : ∀ m ∈ ms, Storable n m.2) : Storable (n + 1) (.object ms)

section

variable {n : Nat} {i : Int} {v : Value} {ms : List (String × Value)}

/-! ## Whole numbers -/

theorem readUnsigned_toDigits (negative : Bool) (hn : n < Word.size64) :
    readUnsigned negative (Nat.toDigits 10 n) = (wholeNumber negative n 0).map fun v => (v, []) := by
  rcases Nat.eq_zero_or_pos n with rfl | hpos
  · exact readTail_of_stops 0 0 stops_nil
  · obtain ⟨d, ds, hds, hzero, hdigit⟩ := toDigits_eq_cons hpos
    have htake := takeDigits_toDigits hn (r := []) nofun
    rw [List.append_nil, hds] at htake
    rw [hds]
    unfold readUnsigned
    dsimp only
    rw [if_neg hzero, if_pos hdigit, htake]
    exact readTail_of_stops n 0 stops_nil

theorem readNumeral_intChars (low : -(Word.half64 : Int) ≤ i) (high : i < Word.size64) :
    readNumeral (intChars i) = some (.int i) := by
  unfold Word.half64 at low
  unfold Word.size64 at high
  unfold intChars readNumeral
  split
  · next hneg =>
    have hread := readUnsigned_toDigits true (n := i.natAbs) (by unfold Word.size64; omega)
    have hwhole : wholeNumber true i.natAbs 0 = some (.int i) := by
      have habs : -(i.natAbs : Int) = i := by omega
      unfold wholeNumber Word.half64
      rw [if_neg (by simp), if_neg (by simp), if_neg (by omega), habs]
    rw [hwhole] at hread
    simp [readValue, isOpenBrace, hread]
  · next hneg =>
    have hread := readUnsigned_toDigits false (n := i.natAbs) (by unfold Word.size64; omega)
    have hwhole : wholeNumber false i.natAbs 0 = some (.int i) := by
      have habs : (i.natAbs : Int) = i := by omega
      unfold wholeNumber
      rw [if_neg (by simp), if_pos (by decide), habs]
    rw [hwhole] at hread
    cases hds : Nat.toDigits 10 i.natAbs with
    | nil => exact absurd hds Nat.toDigits_ne_nil
    | cons d ds =>
      rw [readValue_digit (isDigit_of_mem_toDigits (hds ▸ List.mem_cons_self)), ← hds, hread]
      rfl

/-! ## Objects -/

theorem put_of_greatest {α : Type} {k : String} {m : List (String × α)} (h : ∀ l ∈ m.map (·.1), l < k)
    (v : α) :
    put k v m = m ++ [(k, v)] := by
  induction m with
  | nil => rfl
  | cons p m ih =>
    have hp : p.1 < k := h p.1 (by simp)
    rw [put, if_neg (String.lt_asymm hp), if_neg (by rintro rfl; exact String.lt_irrefl _ hp),
      ih fun l hl => h l (List.mem_cons_of_mem _ hl), List.cons_append]

theorem foldl_put_of_sorted (acc : List (String × Value)) (h : ((acc ++ ms).map (·.1)).Pairwise (· < ·)) :
    ms.foldl (fun m kv => put kv.1 kv.2 m) acc = acc ++ ms := by
  induction ms generalizing acc with
  | nil => simp
  | cons m ms ih =>
    have hbelow : ∀ l ∈ acc.map (·.1), l < m.1 := fun l hl => by
      rw [List.map_append, List.pairwise_append] at h
      exact h.2.2 l hl m.1 (by simp)
    rw [List.foldl_cons, put_of_greatest hbelow, ih _ (by simpa using h), List.append_assoc, List.singleton_append]

/-- Members in the order of their keys stay as they are. -/
theorem members_of_sorted (h : (ms.map (·.1)).Pairwise (· < ·)) : members ms = ms :=
  foldl_put_of_sorted [] h

theorem rereadItems_eq {items : List Value} (h : ∀ v ∈ items, v.reread n = some v) :
    rereadItems items n = some items := by
  induction items with
  | nil => rfl
  | cons v items ih =>
    rw [rereadItems_cons (h v List.mem_cons_self), ih fun u hu => h u (List.mem_cons_of_mem v hu)]
    rfl

theorem rereadMembers_eq (h : ∀ m ∈ ms, m.2.reread n = some m.2) : rereadMembers ms n = some ms := by
  induction ms with
  | nil => rfl
  | cons m ms ih =>
    rw [rereadMembers_cons (h m List.mem_cons_self), ih fun u hu => h u (List.mem_cons_of_mem m hu)]
    rfl

theorem Storable.reread_eq (h : Storable n v) : v.reread n = some v := by
  induction h with
  | null | bool | text => simp [Value.reread]
  | int n low high => rw [Value.reread, readNumeral_intChars low high]
  | array held ih =>
    rw [Value.reread, if_neg (by omega), Nat.add_sub_cancel, rereadItems_eq ih]
    rfl
  | object sorted held ih =>
    rw [Value.reread, if_neg (by omega), Nat.add_sub_cancel, rereadMembers_eq ih, Option.map_some,
      members_of_sorted sorted]

end

/-! ## One line -/

/-- No control character stands in the text. -/
def Printable (cs : List Char) : Prop := ∀ c ∈ cs, 32 ≤ c.toNat

section

variable {c : Char} {cs ds : List Char}

theorem printable_append : Printable (cs ++ ds) ↔ Printable cs ∧ Printable ds := List.forall_mem_append

theorem printable_cons : Printable (c :: cs) ↔ 32 ≤ c.toNat ∧ Printable cs := List.forall_mem_cons

theorem printable_digits (h : ∀ c ∈ ds, isDigit c = true) : Printable ds := fun c hc =>
  Nat.le_trans (by decide) (isDigit_iff.1 (h c hc)).1

theorem IsScale.printable (h : IsScale cs) : Printable cs := by
  cases h with
  | nil => nofun
  | exponent hc hds =>
    refine printable_cons.2 ⟨by decide, printable_cons.2 ⟨?_, printable_digits hds⟩⟩
    rcases hc with rfl | rfl <;> decide

theorem IsTail.printable (h : IsTail cs) : Printable cs := by
  cases h with
  | scale h => exact h.printable
  | fraction hds h =>
    exact printable_cons.2 ⟨by decide, printable_append.2 ⟨printable_digits hds, h.printable⟩⟩

theorem IsUnsigned.printable (h : IsUnsigned cs) : Printable cs := by
  obtain ⟨hds, h⟩ := h
  exact printable_append.2 ⟨printable_digits hds, h.printable⟩

theorem IsNumeral.printable (h : IsNumeral cs) : Printable cs := by
  cases h with
  | plain h => exact h.printable
  | signed h => exact printable_cons.2 ⟨by decide, h.printable⟩

theorem printable_escapeChar (c : Char) : Printable (escapeChar c) := by
  have hhex : ∀ k < 16, 32 ≤ (Bytes.hexDigit k).toNat := by decide
  unfold escapeChar Printable
  split_ifs with h1 h2 h3 h4 h5 h6 h7 h8
  any_goals exact List.forall_mem_cons.2 ⟨by decide, List.forall_mem_singleton.2 (by decide)⟩
  · have hhigh := hhex (c.toNat / 16) (by omega)
    have hlow := hhex (c.toNat % 16) (by omega)
    simp [hhigh, hlow]
  · simp
    omega

theorem printable_textChars (s : String) : Printable (textChars s) := by
  refine printable_cons.2 ⟨by decide, printable_append.2 ⟨fun c hc => ?_, by simp [Printable]⟩⟩
  obtain ⟨d, -, hd⟩ := List.mem_flatMap.1 hc
  exact printable_escapeChar d c hd

theorem printable_joinChars {ps : List (List Char)} (h : ∀ p ∈ ps, Printable p) :
    Printable (joinChars [','] ps) := by
  induction ps with
  | nil => nofun
  | cons p ps ih =>
    have hrest := ih fun q hq => h q (List.mem_cons_of_mem p hq)
    cases ps with
    | nil => exact h p List.mem_cons_self
    | cons q ps =>
      rw [joinChars_cons_cons, printable_append, printable_cons]
      exact ⟨h p List.mem_cons_self, by decide, hrest⟩

theorem forall_itemsChars {p : List Char → Prop} {items : List Value} (h : ∀ v ∈ items, p v.chars) :
    ∀ cs ∈ itemsChars items, p cs := by
  induction items with
  | nil => nofun
  | cons v items ih =>
    rw [itemsChars]
    exact List.forall_mem_cons.2 ⟨h v List.mem_cons_self, ih fun u hu => h u (List.mem_cons_of_mem v hu)⟩

theorem forall_membersChars {p : List Char → Prop} {ms : List (String × Value)}
    (h : ∀ m ∈ ms, p (textChars m.1 ++ ':' :: m.2.chars)) : ∀ cs ∈ membersChars ms, p cs := by
  induction ms with
  | nil => nofun
  | cons m ms ih =>
    rw [membersChars]
    exact List.forall_mem_cons.2 ⟨h m List.mem_cons_self, ih fun u hu => h u (List.mem_cons_of_mem m hu)⟩

/-- A written value stands on one line, floats and all. -/
theorem printable_chars (v : Value) : Printable v.chars := by
  induction v using Value.induction with
  | null => simp [Value.chars, Printable]
  | bool b => cases b <;> simp [Value.chars, Printable]
  | int i => rw [Value.chars]; exact (isNumeral_intChars i).printable
  | float bits => rw [Value.chars]; exact (isNumeral_floatChars bits).printable
  | text s => rw [Value.chars]; exact printable_textChars s
  | array items ih =>
    rw [Value.chars, printable_append, printable_cons]
    exact ⟨⟨by decide, printable_joinChars (forall_itemsChars ih)⟩, by simp [Printable]⟩
  | object ms ih =>
    have hmember : ∀ m ∈ ms, Printable (textChars m.1 ++ ':' :: m.2.chars) := fun m hm =>
      printable_append.2 ⟨printable_textChars m.1, printable_cons.2 ⟨by decide, ih m hm⟩⟩
    rw [Value.chars, printable_append, printable_cons]
    exact ⟨⟨by decide, printable_joinChars (forall_membersChars hmember)⟩, by simp [Printable, closeBrace]⟩

end

end Overseer.Json
