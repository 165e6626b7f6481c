import Overseer.Proofs.NumeralReading

/-!
# Reading back what has been written

A written value is read up to its end and no further, whatever comes behind it, and the answer depends on
the value alone.  For a rest `r` that is empty or begins with a comma or a closing bracket,

    readValue fuel depth (v.chars ++ r)  =  v.reread depth, and the rest r

Main statements: `readValue_chars`, `read_write`.
-/

namespace Overseer.Json

/-- Induction over a value: an array has a property when its items have, and an object when the values in it have. -/
theorem Value.induction {p : Value → Prop} (null : p .null) (bool : ∀ b, p (.bool b)) (int : ∀ i, p (.int i))
    (float : ∀ bits, p (.float bits)) (text : ∀ s, p (.text s))
    (array : ∀ items, (∀ v ∈ items, p v) → p (.array items))
    (object : ∀ ms : List (String × Value), (∀ m ∈ ms, p m.2) → p (.object ms)) (v : Value) : p v :=
  Value.rec (motive_1 := p) (motive_2 := fun items => ∀ v ∈ items, p v) (motive_3 := fun ms => ∀ m ∈ ms, p m.2)
    (motive_4 := fun m => p m.2) null bool int float text array object (by simp)
    (fun _ _ hv hr => List.forall_mem_cons.2 ⟨hv, hr⟩) (by simp)
    (fun _ _ hm hr => List.forall_mem_cons.2 ⟨hm, hr⟩)
    (fun _ _ hv => hv) v

/-! ## What is read back -/

mutual

/-- What is read of a value that has been written, inside brackets that leave room for `depth` more. -/
def Value.reread : Value → (depth : Nat) → Option Value
  | .null, _ => some .null
  | .bool b, _ => some (.bool b)
  | .int i, _ => readNumeral (intChars i)
  | .float bits, _ => readNumeral (floatChars bits)
  | .text s, _ => some (.text s)
  | .array items, depth => if depth = 0 then none else (rereadItems items (depth - 1)).map .array
  | .object ms, depth =>
    if depth = 0 then none else (rereadMembers ms (depth - 1)).map fun ms => .object (members ms)

def rereadItems : List Value → (depth : Nat) → Option (List Value)
  | [], _ => some []
  | v :: r, depth => (v.reread depth).bind fun w => (rereadItems r depth).map (w :: ·)

def rereadMembers : List (String × Value) → (depth : Nat) → Option (List (String × Value))
  | [], _ => some []
  | m :: r, depth => (m.2.reread depth).bind fun w => (rereadMembers r depth).map ((m.1, w) :: ·)

end

section

variable {c : Char} {cs r : List Char} {fuel depth : Nat} {v : Value}

/-! ## Texts -/

theorem hexValue?_hexDigit : ∀ n < 16, hexValue? (Bytes.hexDigit n) = some n := by decide

/-- The escape of a character is read as the character. -/
theorem readTextFrom_escapeChar (acc : List Char) :
    readTextFrom acc (escapeChar c ++ r) = readTextFrom (c :: acc) r := by
  unfold escapeChar
  split_ifs with h1 h2 h3 h4 h5 h6 h7 h8
  · subst h1; rfl
  · subst h2; rfl
  · subst h3; rfl
  · subst h4; rfl
  · subst h5; rfl
  · rw [← Char.ofNat_toNat c, h6]; rfl
  · rw [← Char.ofNat_toNat c, h7]; rfl
  · have hfour : hexFour? '0' '0' (Bytes.hexDigit (c.toNat / 16)) (Bytes.hexDigit (c.toNat % 16)) = some c.toNat := by
      unfold hexFour?
      rw [hexValue?_hexDigit _ (by omega), hexValue?_hexDigit _ (by omega)]
      simp [show hexValue? '0' = some 0 from rfl]
      omega
    simp only [List.cons_append, List.nil_append]
    rw [readTextFrom, hfour]
    simp [Char.ofNat_toNat]
    intro h
    omega
  · rw [List.singleton_append, readTextFrom]
    · rw [if_neg (by simp [h2]; omega)]
    · exact h1
    · exact fun _ _ _ _ _ h => absurd h h2
    · exact fun _ _ h => absurd h h2

theorem readTextFrom_escaped (s acc : List Char) :
    readTextFrom acc (s.flatMap escapeChar ++ '"' :: r) = some (String.ofList (acc.reverse ++ s), r) := by
  induction s generalizing acc with
  | nil => simp [readTextFrom]
  | cons c s ih => rw [List.flatMap_cons, List.append_assoc, readTextFrom_escapeChar, ih]; simp

/-- A text behind its opening quote. -/
theorem readTextFrom_text (s : String) :
    readTextFrom [] (s.toList.flatMap escapeChar ++ ['"'] ++ r) = some (s, r) := by
  rw [List.append_assoc]
  exact (readTextFrom_escaped s.toList []).trans (by simp)

/-! ## Values -/

/-- A character that opens a value: no blank, and not the end of an array. -/
def Opens (cs : List Char) : Prop := ∀ c ∈ cs.head?, isBlank c = false ∧ c ≠ ']'

theorem opens_of_isDigit (hc : isDigit c = true) : Opens (c :: cs) := by
  have hne : ∀ d, isDigit d = false → c ≠ d := fun _ => ne_of_isDigit hc
  rintro _ ⟨⟩
  exact ⟨by simp [isBlank, hne ' ' rfl, hne '\n' rfl, hne '\t' rfl, hne '\r' rfl], hne ']' rfl⟩

theorem IsNumeral.opens (h : IsNumeral cs) : cs ≠ [] ∧ Opens cs := by
  cases h with
  | plain h =>
    obtain ⟨hds, -⟩ := h
    exact ⟨nofun, opens_of_isDigit (hds _ List.mem_cons_self)⟩
  | signed => exact ⟨nofun, by rintro c ⟨⟩; decide⟩

theorem chars_opens (v : Value) : v.chars ≠ [] ∧ Opens v.chars := by
  cases v with
  | int i => rw [Value.chars]; exact (isNumeral_intChars i).opens
  | float bits => rw [Value.chars]; exact (isNumeral_floatChars bits).opens
  | bool b => cases b <;> simp [Value.chars, Opens, isBlank]
  | _ => simp [Value.chars, textChars, openBrace, Opens, isBlank]

theorem skipBlanks_of_opens (h : Opens cs) : skipBlanks cs = cs := by
  cases cs with
  | nil => rfl
  | cons c cs => rw [skipBlanks, List.dropWhile_cons_of_neg (by rw [(h c rfl).1]; decide)]

/-- Reading a written value gives what is said of it, and leaves what stands behind it. -/
def Reads (v : Value) : Prop := ∀ fuel depth r, v.chars.length ≤ fuel → Stops r →
  readValue fuel depth (v.chars ++ r) = (v.reread depth).map fun w => (w, r)

/-- A value has a character, so that there is fuel for a first step. -/
theorem reads_of_succ (h : ∀ fuel depth r, v.chars.length ≤ fuel + 1 → Stops r →
    readValue (fuel + 1) depth (v.chars ++ r) = (v.reread depth).map fun w => (w, r)) : Reads v := by
  intro fuel depth r hfuel hr
  cases fuel with
  | zero => exact absurd (List.length_eq_zero_iff.1 (Nat.le_zero.1 hfuel)) (chars_opens v).1
  | succ fuel => exact h fuel depth r hfuel hr

theorem readWord_append (w r : List Char) : readWord w v (w ++ r) = some (v, r) := by
  have hexpect : expect w (w ++ r) = some r := by
    induction w with
    | nil => cases r <;> rfl
    | cons c w ih => rw [List.cons_append, expect, if_pos rfl, ih]
  rw [readWord, hexpect]
  rfl

theorem skipBlanks_cons (hc : isBlank c = false) : skipBlanks (c :: r) = c :: r := by
  rw [skipBlanks, List.dropWhile_cons_of_neg (by rw [hc]; decide)]

theorem opens_append (h : cs ≠ [] ∧ Opens cs) (r : List Char) : Opens (cs ++ r) := by
  cases cs with
  | nil => exact absurd rfl h.1
  | cons c cs => exact h.2

theorem joinChars_cons_cons (p q : List Char) (ps : List (List Char)) :
    joinChars [','] (p :: q :: ps) = p ++ ',' :: joinChars [','] (q :: ps) := by
  rw [joinChars, List.append_assoc]
  · rfl
  · simp

/-- The first piece opens what is joined. -/
theorem opens_joinChars {ps : List (List Char)} (h : cs ≠ [] ∧ Opens cs) (sep r : List Char) :
    Opens (joinChars sep (cs :: ps) ++ r) := by
  cases ps with
  | nil => exact opens_append h r
  | cons p ps =>
    rw [joinChars, List.append_assoc, List.append_assoc]
    exact opens_append h _
    · simp

theorem opens_items (v : Value) (items : List Value) (r : List Char) :
    Opens (joinChars [','] (itemsChars (v :: items)) ++ r) := by
  rw [itemsChars]
  exact opens_joinChars (chars_opens v) [','] r

theorem opens_members (m : String × Value) (ms : List (String × Value)) (r : List Char) :
    Opens (joinChars [','] (membersChars (m :: ms)) ++ r) := by
  rw [membersChars]
  exact opens_joinChars (by simp [textChars, Opens, isBlank]) [','] r

theorem stops_cons (hc : c = ',' ∨ c = ']' ∨ c = closeBrace) : Stops (c :: r) := by
  rintro _ ⟨⟩
  exact hc

theorem rereadItems_cons {w : Value} {items : List Value} (hw : v.reread depth = some w) :
    rereadItems (v :: items) depth = (rereadItems items depth).map (w :: ·) := by
  rw [rereadItems, hw, Option.bind_some]

theorem rereadMembers_cons {w : Value} {m : String × Value} {ms : List (String × Value)}
    (hw : m.2.reread depth = some w) :
    rereadMembers (m :: ms) depth = (rereadMembers ms depth).map ((m.1, w) :: ·) := by
  rw [rereadMembers, hw, Option.bind_some]

/-! ## Items and members

By induction on what is left to be read; each item and each member takes one step of fuel, and at least
one character. -/

theorem readItems_chars {items : List Value} (hreads : ∀ v ∈ items, Reads v) (hne : items ≠ []) (acc : List Value)
    (hfuel : (joinChars [','] (itemsChars items)).length < fuel) (r : List Char) :
    readItems fuel depth acc (joinChars [','] (itemsChars items) ++ ']' :: r) =
      (rereadItems items depth).map fun ws => (.array (acc.reverse ++ ws), r) := by
  induction items generalizing acc fuel with
  | nil => exact absurd rfl hne
  | cons v items ih =>
    obtain ⟨fuel, rfl⟩ := Nat.exists_eq_succ_of_ne_zero (by omega : fuel ≠ 0)
    have hv := hreads v List.mem_cons_self
    cases items with
    | nil =>
      simp only [itemsChars, joinChars] at hfuel ⊢
      rw [readItems, hv fuel depth _ (by omega) (stops_cons (.inr (.inl rfl)))]
      cases hw : v.reread depth with
      | none => simp [rereadItems, hw]
      | some w => simp [rereadItems, hw, skipBlanks_cons (c := ']') rfl]
    | cons v' items =>
      have hjoin : joinChars [','] (itemsChars (v :: v' :: items)) =
          v.chars ++ ',' :: joinChars [','] (itemsChars (v' :: items)) := by
        rw [itemsChars, itemsChars, joinChars_cons_cons]
      have hrest : ∀ acc, readItems fuel depth acc (joinChars [','] (itemsChars (v' :: items)) ++ ']' :: r) = _ :=
        fun acc => ih (fun u hu => hreads u (List.mem_cons_of_mem v hu)) (by simp) acc (by
          rw [hjoin, List.length_append, List.length_cons] at hfuel
          omega)
      rw [hjoin, List.length_append] at hfuel
      rw [hjoin, List.append_assoc, List.cons_append, readItems, hv fuel depth _ (by omega) (stops_cons (.inl rfl))]
      cases hw : v.reread depth with
      | none => simp [rereadItems, hw]
      | some w =>
        simp only [Option.map_some, skipBlanks_cons (c := ',') rfl]
        rw [skipBlanks_of_opens (opens_items v' items _), hrest, rereadItems_cons hw]
        simp [Function.comp_def]

/-- A member behind its key: what reads the value behind the colon reads on from there. -/
theorem readMembers_member (m : String × Value) (hreads : Reads m.2) (acc : List (String × Value))
    (hfuel : m.2.chars.length ≤ fuel) (hr : Stops r) :
    readMembers (fuel + 1) depth acc (textChars m.1 ++ ':' :: m.2.chars ++ r) =
      (m.2.reread depth).bind fun w =>
        match skipBlanks r with
        | ',' :: r => readMembers fuel depth (put m.1 w acc) (skipBlanks r)
        | d :: r => if isCloseBrace d then some (.object (put m.1 w acc), r) else none
        | [] => none := by
  have htext : textChars m.1 ++ ':' :: m.2.chars ++ r =
      '"' :: (m.1.toList.flatMap escapeChar ++ ['"'] ++ ':' :: (m.2.chars ++ r)) := by
    simp [textChars]
  rw [htext, readMembers, readTextFrom_text]
  simp only [skipBlanks_cons (c := ':') rfl]
  rw [skipBlanks_of_opens (opens_append (chars_opens m.2) r), hreads fuel depth r hfuel hr]
  cases m.2.reread depth with
  | none => rfl
  | some w => rfl

theorem readMembers_chars {ms : List (String × Value)} (hreads : ∀ m ∈ ms, Reads m.2) (hne : ms ≠ [])
    (acc : List (String × Value)) (hfuel : (joinChars [','] (membersChars ms)).length < fuel) (r : List Char) :
    readMembers fuel depth acc (joinChars [','] (membersChars ms) ++ closeBrace :: r) =
      (rereadMembers ms depth).map fun ws => (.object (ws.foldl (fun m kv => put kv.1 kv.2 m) acc), r) := by
  induction ms generalizing acc fuel with
  | nil => exact absurd rfl hne
  | cons m ms ih =>
    obtain ⟨fuel, rfl⟩ := Nat.exists_eq_succ_of_ne_zero (by omega : fuel ≠ 0)
    have hm := hreads m List.mem_cons_self
    have hlength : (textChars m.1 ++ ':' :: m.2.chars).length = (textChars m.1).length + m.2.chars.length + 1 := by
      simp [Nat.add_assoc]
    cases ms with
    | nil =>
      simp only [membersChars, joinChars] at hfuel ⊢
      rw [readMembers_member m hm acc (by omega) (stops_cons (.inr (.inr rfl)))]
      cases hw : m.2.reread depth with
      | none => simp [rereadMembers, hw]
      | some w =>
        simp only [Option.bind_some, skipBlanks_cons (c := closeBrace) rfl, rereadMembers, hw]
        rfl
    | cons m' ms =>
      have hjoin : joinChars [','] (membersChars (m :: m' :: ms)) =
          textChars m.1 ++ ':' :: m.2.chars ++ ',' :: joinChars [','] (membersChars (m' :: ms)) := by
        rw [membersChars, membersChars, joinChars_cons_cons]
      have hrest : ∀ acc, readMembers fuel depth acc
        (joinChars [','] (membersChars (m' :: ms)) ++ closeBrace :: r) = _ :=
        fun acc => ih (fun u hu => hreads u (List.mem_cons_of_mem m hu)) (by simp) acc (by
          rw [hjoin, List.length_append, List.length_cons] at hfuel
          omega)
      rw [hjoin, List.length_append, hlength] at hfuel
      rw [hjoin, List.append_assoc, List.cons_append, readMembers_member m hm acc (by omega) (stops_cons (.inl rfl))]
      cases hw : m.2.reread depth with
      | none => simp [rereadMembers, hw]
      | some w =>
        simp only [Option.bind_some, skipBlanks_cons (c := ',') rfl]
        rw [skipBlanks_of_opens (opens_members m' ms _), hrest, rereadMembers_cons hw]
        simp [Function.comp_def]

theorem reads_text (s : String) : Reads (.text s) := by
  refine reads_of_succ fun fuel depth r hfuel hr => ?_
  have hchars : Value.chars (.text s) = '"' :: (s.toList.flatMap escapeChar ++ ['"']) := by
    rw [Value.chars, textChars, List.cons_append]
  rw [hchars, List.cons_append, readValue, if_pos rfl, readTextFrom_text, Value.reread]
  rfl

theorem reads_array {items : List Value} (hreads : ∀ v ∈ items, Reads v) : Reads (.array items) := by
  refine reads_of_succ fun fuel depth r hfuel hr => ?_
  have hchars : Value.chars (.array items) = '[' :: (joinChars [','] (itemsChars items) ++ [']']) := by
    rw [Value.chars, List.cons_append]
  rw [hchars] at hfuel ⊢
  rw [List.cons_append, List.append_assoc, List.singleton_append, readValue, if_neg (by decide), if_pos rfl,
    Value.reread]
  by_cases hdepth : depth = 0
  · rw [if_pos hdepth, if_pos hdepth, Option.map_none]
  · rw [if_neg hdepth, if_neg hdepth]
    cases items with
    | nil => simp [itemsChars, joinChars, skipBlanks_cons (c := ']') rfl, rereadItems]
    | cons v items =>
      have hopens := opens_items v items (']' :: r)
      have hitems : readItems fuel (depth - 1) [] (joinChars [','] (itemsChars (v :: items)) ++ ']' :: r) = _ :=
        readItems_chars hreads (by simp) [] (by simp at hfuel; omega) r
      rw [skipBlanks_of_opens hopens]
      split
      · next r' heq => exact absurd rfl (hopens ']' (by rw [heq]; rfl)).2
      · rw [hitems, Option.map_map]
        rfl

theorem reads_object {ms : List (String × Value)} (hreads : ∀ m ∈ ms, Reads m.2) : Reads (.object ms) := by
  refine reads_of_succ fun fuel depth r hfuel hr => ?_
  have hchars : Value.chars (.object ms) = openBrace :: (joinChars [','] (membersChars ms) ++ [closeBrace]) := by
    rw [Value.chars, List.cons_append]
  rw [hchars] at hfuel ⊢
  rw [List.cons_append, List.append_assoc, List.singleton_append, readValue, if_neg (by decide), if_neg (by decide),
    if_pos (by decide), Value.reread]
  by_cases hdepth : depth = 0
  · rw [if_pos hdepth, if_pos hdepth, Option.map_none]
  · rw [if_neg hdepth, if_neg hdepth]
    cases ms with
    | nil =>
      rw [membersChars, joinChars, List.nil_append, skipBlanks_cons (c := closeBrace) rfl]
      rfl
    | cons m ms =>
      have hmembers : readMembers fuel (depth - 1) []
        (joinChars [','] (membersChars (m :: ms)) ++ closeBrace :: r) = _ :=
        readMembers_chars hreads (by simp) [] (by simp at hfuel; omega) r
      rw [skipBlanks_of_opens (opens_members m ms _)]
      -- the first member begins with a quote, which is no closing brace
      have hquote : ∃ t, joinChars [','] (membersChars (m :: ms)) ++ closeBrace :: r = '"' :: t := by
        rw [membersChars]
        cases membersChars ms <;> exact ⟨_, rfl⟩
      obtain ⟨t, ht⟩ := hquote
      rw [ht] at hmembers ⊢
      rw [Option.map_map]
      exact hmembers

theorem readValue_chars (v : Value) : Reads v := by
  have hnumeral : ∀ {w : Value}, IsNumeral w.chars → (∀ depth, w.reread depth = readNumeral w.chars) →
    Reads w := by
    intro w hw hreread
    refine reads_of_succ fun fuel depth r _ hr => ?_
    rw [readValue_numeral hw hr, hreread]
  have hword : ∀ {c : Char} {w : List Char} {v : Value}, v.chars = c :: w → (∀ depth, v.reread depth = some v) →
      (∀ fuel depth s, readValue (fuel + 1) depth (c :: s) = readWord w v s) → Reads v := by
    intro c w v hchars hreread hread
    refine reads_of_succ fun fuel depth r _ _ => ?_
    rw [hchars, List.cons_append, hread, readWord_append, hreread, Option.map_some]
  induction v using Value.induction with
  | null => exact hword rfl (fun _ => rfl) fun _ _ _ => rfl
  | bool b => cases b <;> exact hword rfl (fun _ => rfl) fun _ _ _ => rfl
  | int i => exact hnumeral (isNumeral_intChars i) fun _ => rfl
  | float bits => exact hnumeral (isNumeral_floatChars bits) fun _ => rfl
  | text s => exact reads_text s
  | array items ih => exact reads_array ih
  | object ms ih => exact reads_object ih

/-- A value that is written and read again. -/
theorem read_write (v : Value) : read v.write = v.reread maxDepth := by
  have hread := readValue_chars v (v.chars.length + 1) maxDepth [] (by omega) stops_nil
  rw [List.append_nil] at hread
  rw [read, Value.write, String.toList_ofList, readChars, skipBlanks_of_opens (chars_opens v).2, hread]
  cases v.reread maxDepth with
  | none => rfl
  | some w => rfl

end

end Overseer.Json
