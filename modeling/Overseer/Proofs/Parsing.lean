import Overseer.Proofs.Image

/-!
# Parsing the parts of a file

A number, a header, a section or a symbol is read just if its bytes lie in the file, and then it is what they say.

    Inside d o n    =  n bytes from o on lie in d, and their end is a 64-bit number
    Holds t i s     =  the bytes of the string s lie at the index i of the table t, and then the first zero byte
    IsObject d l    =  d begins with the header of a shared object of layout l

Main statements: `probe_eq_ok_iff`, `parseTable_eq_ok_iff`, `contents_eq_ok_iff`, `stringAt_eq_ok_iff`.
-/

namespace Overseer.Elf

open Text

/-! ## Numbers and strings of a file -/

/-- `n` bytes from `o` on lie in the data, and their end is a 64-bit number. -/
def Inside (d : Data) (o n : Nat) : Prop := o + n < Layout.limit ∧ o + n ≤ d.size

/-- The number in the `w` bytes from `o` on. -/
def Layout.numberAt (l : Layout) (d : Data) (o w : Nat) : Nat := l.value (d.extract o (o + w)).toList

def Layout.wordAt (l : Layout) (d : Data) (o : Nat) : Nat := l.numberAt d o l.wordSize

/-- A string lies at an index of a table: its bytes in UTF-8, and then the first zero byte. -/
def Holds (table : Data) (index : Nat) (s : String) : Prop :=
  At table.toList index (stringBytes s) ∧ '\x00' ∉ s.toList

/-! ## The parts of a file -/

def headerAt (l : Layout) (d : Data) : Header where
  type := .ofCode (l.numberAt d 16 2)
  table := ⟨l.wordAt d (l.pick 32 40), l.numberAt d (l.pick 46 58) 2, l.numberAt d (l.pick 48 60) 2⟩
  namesIndex := l.numberAt d (l.pick 50 62) 2

def sectionAt (l : Layout) (d : Data) (o : Nat) : Section where
  name := l.numberAt d o 4
  kind := .ofCode (l.numberAt d (o + 4) 4)
  offset := l.wordAt d (o + l.pick 16 24)
  size := l.wordAt d (o + l.pick 20 32)
  entrySize := l.wordAt d (o + l.pick 36 56)

def symbolAt (l : Layout) (d : Data) (o : Nat) : Symbol where
  name := l.numberAt d o 4
  info := l.numberAt d (o + l.pick 12 4) 1
  other := l.numberAt d (o + l.pick 13 5) 1
  sectionIndex := l.numberAt d (o + l.pick 14 6) 2
  value := l.wordAt d (o + l.pick 4 8)
  size := l.wordAt d (o + l.pick 8 16)

/-- The bytes of a section. -/
def Section.bytes (s : Section) (d : Data) : Data := d.extract s.offset (s.offset + s.size)

/-- A section lies in the file. -/
def Section.LiesIn (s : Section) (d : Data) : Prop := Inside d s.offset s.size

/-! ## Objects and tables of sections -/

/-- The file begins with the identification of a layout, and its header is that of a shared object. -/
structure IsObject (d : Data) (l : Layout) : Prop where
  magic : (d.extract 0 4).toList = magic
  cls : Class.ofByte? (d.getD 4 0).toNat = some l.cls
  encoding : Encoding.ofByte? (d.getD 5 0).toNat = some l.encoding
  header : l.headerSize ≤ d.size
  type : l.numberAt d 16 2 = 3

/-- A table of sections lies in the file, and each of its entries has room for what a section says. -/
structure SectionTable.LiesIn (t : SectionTable) (l : Layout) (d : Data) : Prop where
  room : t.count = 0 ∨ l.sectionSize ≤ t.entrySize
  inside : Inside d t.offset (t.entrySize * t.count)

variable {d table : Data} {l : Layout} {h : Header} {s : Section} {ss : List Section} {e i n o w : Nat}
  {name : String} {α β : Type}

/-! ## Steps that may fail -/

theorem bind_eq_ok {x : Except Error α} {g : α → Except Error β} {b : β} :
    (x >>= g) = .ok b ↔ ∃ a, x = .ok a ∧ g a = .ok b := by
  cases x <;> simp [bind, Except.bind]

theorem map_eq_ok {x : Except Error α} {g : α → β} {b : β} :
    x.map g = .ok b ↔ ∃ a, x = .ok a ∧ g a = b := by
  cases x <;> simp [Except.map]

/-! ## Reading numbers and strings -/

theorem Inside.mono {o' n' : Nat} (h : Inside d o n) (hle : o' + n' ≤ o + n) : Inside d o' n' :=
  ⟨Nat.lt_of_le_of_lt hle h.1, Nat.le_trans hle h.2⟩

theorem number_of_inside (h : Inside d o w) : l.number d o w = .ok (l.numberAt d o w) := by
  unfold Layout.number Layout.fixed
  rw [if_neg (Nat.not_le.2 h.1), if_neg (Nat.not_lt.2 h.2)]
  rfl

theorem word_of_inside (h : Inside d o l.wordSize) : l.word d o = .ok (l.wordAt d o) := number_of_inside h

theorem number_isOk_iff : (∃ x, l.number d o w = .ok x) ↔ Inside d o w := by
  constructor
  · rintro ⟨x, hx⟩
    obtain ⟨b, hb, -⟩ := map_eq_ok.1 hx
    exact (fixed_isOk_iff d o w).1 ⟨b, hb⟩
  · exact fun hin => ⟨_, number_of_inside hin⟩

theorem zeroFrom_eq_some (h : zeroFrom d n o = some i) :
    o ≤ i ∧ i < o + n ∧ d.getD i 1 = 0 ∧ ∀ j, o ≤ j → j < i → d.getD j 1 ≠ 0 := by
  induction n generalizing o with
  | zero => simp [zeroFrom] at h
  | succ n ih =>
    rw [zeroFrom] at h
    split at h
    · next hzero =>
      cases h
      exact ⟨Nat.le_refl _, by omega, hzero, fun j hj hlt => absurd hlt (by omega)⟩
    · next hzero =>
      obtain ⟨hle, hlt, hi, hbefore⟩ := ih h
      refine ⟨by omega, by omega, hi, fun j hj hlt => ?_⟩
      rcases Nat.lt_or_eq_of_le hj with hj | rfl
      · exact hbefore j hj hlt
      · exact hzero

/-- What lies in the list of the bytes from `o` on, when the part up to `n` is followed by a byte. -/
theorem at_extract {x : UInt8} (hon : o ≤ n) (hn : n < d.size) (hx : d.getD n 1 = x) :
    At d.toList o ((d.extract o n).toList ++ [x]) := by
  have hlen : n < d.toList.length := hn
  have hget : d.toList[n] = x := by
    rw [← hx, Array.getD_eq_getD_getElem?, Array.getElem?_eq_getElem hn]
    rfl
  refine ⟨d.toList.take o, d.toList.drop (n + 1), ?_, by rw [List.length_take]; omega⟩
  rw [Array.toList_extract, List.extract_eq_take_drop, List.append_assoc, List.singleton_append, ← hget,
    List.getElem_cons_drop, ← List.append_assoc, ← List.take_add, Nat.add_sub_cancel' hon, List.take_append_drop]

theorem stringAt_eq_ok_iff : stringAt table i = .ok name ↔ Holds table i name := by
  constructor
  · intro h
    unfold stringAt at h
    split at h
    · cases h
    · next stop hstop =>
      obtain ⟨hle, hlt, hzero, hbefore⟩ := zeroFrom_eq_some hstop
      split at h
      · next s hs =>
        cases h
        have hbytes : (table.extract i stop).toList = Utf8.encode name := Utf8.decode_eq_some_iff.1 hs
        have hat := at_extract hle (by omega) hzero
        refine ⟨by rwa [hbytes] at hat, fun hnul => ?_⟩
        rw [← Utf8.zero_mem_encode, ← hbytes, Array.mem_toList_iff, Array.mem_extract_iff_getElem] at hnul
        obtain ⟨k, hk, hget⟩ := hnul
        refine hbefore (i + k) (by omega) (by omega) ?_
        rw [Array.getD_eq_getD_getElem?, Array.getElem?_eq_getElem (by omega), hget]
        rfl
      · cases h
  · rintro ⟨hat, hnul⟩
    have hread := hat.string hnul
    rwa [Array.toArray_toList] at hread

/-! ## Reading the header -/

theorem parse_header_of_le (h : l.headerSize ≤ d.size) : Header.parse l d = .ok (headerAt l d) := by
  have hsize : l.headerSize ≤ 64 := by rcases l with ⟨_ | _, _ | _⟩ <;> decide
  have hin : ∀ {o w}, o + w ≤ l.headerSize → Inside d o w := fun hle =>
    ⟨by unfold Layout.limit Word.size64; omega, Nat.le_trans hle h⟩
  unfold Header.parse
  rw [if_neg (Nat.not_lt.2 h), number_of_inside (o := 16) (w := 2), word_of_inside (o := l.pick 32 40),
    number_of_inside (o := l.pick 46 58) (w := 2), number_of_inside (o := l.pick 48 60) (w := 2),
    number_of_inside (o := l.pick 50 62) (w := 2)]
  · rfl
  all_goals
    refine hin ?_
    rcases l with ⟨_ | _, _ | _⟩ <;> decide

theorem ofIdent_eq_ok_iff : Layout.ofIdent d = .ok l ↔ identSize ≤ d.size ∧ (d.extract 0 4).toList = magic ∧
    Class.ofByte? (d.getD 4 0).toNat = some l.cls ∧ Encoding.ofByte? (d.getD 5 0).toNat = some l.encoding := by
  unfold Layout.ofIdent
  obtain ⟨cls, encoding⟩ := l
  split
  · next hsize => exact ⟨nofun, fun h => absurd h.1 (Nat.not_le.2 hsize)⟩
  · next hsize =>
    split
    · next hmagic => exact ⟨nofun, fun h => absurd h.2.1 hmagic⟩
    · next hmagic =>
      dsimp only
      split <;> simp_all

theorem ofCode_eq_dyn_iff : FileType.ofCode n = .dyn ↔ n = 3 := by
  unfold FileType.ofCode
  split_ifs <;> simp_all

theorem probe_eq_ok_iff : probe d = .ok (l, h) ↔ IsObject d l ∧ h = headerAt l d := by
  have hident : identSize ≤ l.headerSize := by rcases l with ⟨_ | _, _ | _⟩ <;> decide
  unfold probe
  constructor
  · intro hp
    obtain ⟨l', hl, hp⟩ := bind_eq_ok.1 hp
    obtain ⟨h', hh, hp⟩ := bind_eq_ok.1 hp
    obtain ⟨hsize, hmagic, hcls, hencoding⟩ := ofIdent_eq_ok_iff.1 hl
    have hheader : l'.headerSize ≤ d.size := by
      by_contra hlt
      rw [Header.parse, if_pos (Nat.not_le.1 hlt)] at hh
      cases hh
    rw [parse_header_of_le hheader] at hh
    cases hh
    split at hp
    · next hshared =>
      cases hp
      exact ⟨⟨hmagic, hcls, hencoding, hheader, ofCode_eq_dyn_iff.1 (beq_iff_eq.1 hshared)⟩, rfl⟩
    · cases hp
  · rintro ⟨ho, rfl⟩
    have hl : Layout.ofIdent d = .ok l :=
      ofIdent_eq_ok_iff.2 ⟨Nat.le_trans hident ho.header, ho.magic, ho.cls, ho.encoding⟩
    have hshared : (headerAt l d).isShared = true := beq_iff_eq.2 (ofCode_eq_dyn_iff.2 ho.type)
    rw [hl]
    simp only [bind, Except.bind]
    rw [parse_header_of_le ho.header]
    simp only [hshared, if_true]
    rfl

/-! ## Reading the table of sections -/

theorem parse_section_of_inside (h : Inside d o l.sectionSize) : Section.parse l d o = .ok (sectionAt l d o) := by
  have hin : ∀ {j w}, j + w ≤ l.sectionSize → Inside d (o + j) w := fun hle => h.mono (by omega)
  have hplace : ∀ {j}, j ≤ l.sectionSize → Section.place o j = .ok (o + j) := fun hle =>
    place_of_le h.1 (by omega)
  unfold Section.parse
  rw [hplace (j := 0), hplace (j := 4), hplace (j := l.pick 16 24), hplace (j := l.pick 20 32),
    hplace (j := l.pick 36 56)]
  · simp only [bind, Except.bind]
    rw [number_of_inside (o := o + 0) (w := 4), number_of_inside (o := o + 4) (w := 4),
      word_of_inside (o := o + l.pick 16 24), word_of_inside (o := o + l.pick 20 32),
      word_of_inside (o := o + l.pick 36 56)]
    · rfl
    all_goals
      refine hin ?_
      rcases l with ⟨_ | _, _ | _⟩ <;> decide
  all_goals rcases l with ⟨_ | _, _ | _⟩ <;> decide

theorem parseFrom_of_inside (h : ∀ i < n, Inside d (o + e * i) l.sectionSize) :
    Section.parseFrom l d e n o = .ok ((List.range n).map fun i => sectionAt l d (o + e * i)) := by
  induction n generalizing o with
  | zero => rfl
  | succ n ih =>
    have hfirst := parse_section_of_inside (h 0 (by omega))
    have hrest := ih (o := o + e) fun i hi => by
      have hnext := h (i + 1) (by omega)
      rwa [Nat.mul_succ, Nat.add_comm (e * i) e, ← Nat.add_assoc] at hnext
    rw [Nat.mul_zero, Nat.add_zero] at hfirst
    rw [Section.parseFrom, hfirst]
    simp only [bind, Except.bind]
    rw [hrest, List.range_succ_eq_map, List.map_cons, List.map_map]
    have hshift : ∀ i, o + e * Nat.succ i = o + e + e * i := fun i => by rw [Nat.mul_succ]; omega
    simp only [Function.comp_def, hshift]
    rfl

theorem checkedRange_eq_ok_iff {what : String} {r : Nat × Nat} :
    checkedRange d what o n = .ok r ↔ Inside d o n ∧ r = (o, o + n) := by
  unfold checkedRange Inside
  split
  · next h => simp; omega
  · next h =>
    split
    · next h' => simp; omega
    · next h' =>
      rw [Except.ok.injEq, eq_comm]
      exact ⟨fun hr => ⟨⟨by omega, by omega⟩, hr⟩, And.right⟩

theorem contents_eq_ok_iff {b : Data} : s.contents d = .ok b ↔ s.LiesIn d ∧ b = s.bytes d := by
  unfold Section.contents Section.LiesIn
  rw [map_eq_ok]
  constructor
  · rintro ⟨r, hr, rfl⟩
    obtain ⟨hin, rfl⟩ := checkedRange_eq_ok_iff.1 hr
    exact ⟨hin, rfl⟩
  · rintro ⟨hin, rfl⟩
    exact ⟨_, checkedRange_eq_ok_iff.2 ⟨hin, rfl⟩, rfl⟩

/-- Each entry of a table that lies in the file lies there. -/
theorem SectionTable.LiesIn.row {t : SectionTable} (h : t.LiesIn l d) (hi : i < t.count) :
    Inside d (t.offset + t.entrySize * i) l.sectionSize := by
  have hmul : t.entrySize * (i + 1) ≤ t.entrySize * t.count := Nat.mul_le_mul_left _ hi
  have hroom := h.room
  rw [Nat.mul_succ] at hmul
  exact h.inside.mono (by omega)

theorem parseTable_eq_ok_iff {t : SectionTable} : Section.parseTable l d t = .ok ss ↔
    t.LiesIn l d ∧ ss = (List.range t.count).map fun i => sectionAt l d (t.offset + t.entrySize * i) := by
  unfold Section.parseTable
  constructor
  · intro h
    split at h
    · cases h
    · next hroom =>
      obtain ⟨r, hr, h⟩ := bind_eq_ok.1 h
      obtain ⟨hin, rfl⟩ := checkedRange_eq_ok_iff.1 hr
      have hlies : t.LiesIn l d := ⟨by omega, hin⟩
      rw [parseFrom_of_inside fun i hi => hlies.row hi] at h
      cases h
      exact ⟨hlies, rfl⟩
  · rintro ⟨hlies, rfl⟩
    have hroom := hlies.room
    rw [if_neg (by omega), checkedRange_eq_ok_iff.2 ⟨hlies.inside, rfl⟩]
    exact parseFrom_of_inside fun i hi => hlies.row hi

/-! ## Reading a symbol -/

theorem parse_symbol_of_inside (h : Inside d o l.symbolSize) : Symbol.parse l d o = .ok (symbolAt l d o) := by
  have hin : ∀ {j w}, j + w ≤ l.symbolSize → Inside d (o + j) w := fun hle => h.mono (by omega)
  have hname : Inside d o 4 := hin (j := 0) (by rcases l with ⟨_ | _, _ | _⟩ <;> decide)
  unfold Symbol.parse
  rw [if_neg (Nat.not_le.2 h.1), if_neg (Nat.not_lt.2 h.2), number_of_inside hname,
    number_of_inside (o := o + l.pick 12 4) (w := 1), number_of_inside (o := o + l.pick 13 5) (w := 1),
    number_of_inside (o := o + l.pick 14 6) (w := 2), word_of_inside (o := o + l.pick 4 8),
    word_of_inside (o := o + l.pick 8 16)]
  · rfl
  all_goals
    refine hin ?_
    rcases l with ⟨_ | _, _ | _⟩ <;> decide

/-- A symbol that does not lie in the table is not read. -/

theorem parse_symbol_eq_error (h : d.size < o + l.symbolSize) : ∃ e, Symbol.parse l d o = .error e := by
  unfold Symbol.parse
  split
  · exact ⟨_, rfl⟩
  · exact ⟨_, rfl⟩

end Overseer.Elf
