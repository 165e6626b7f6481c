import Mathlib.Data.List.Forall2
import Overseer.Proofs.Image

/-!
# Scanning images

A scan of an image finds the names of the global functions in `.text` again, in their order and as often as they
occur, whatever the layout.  The header leads to the table of sections, the names in it to the two tables of
symbols and strings, and the scan goes through the symbols one by one.

    scan (image l syms) = names of the s in syms with  s.info = 0x12,  s.placement = text

Main statement: `scan_image`.
-/

namespace Overseer.Elf

/-! ## What can be written -/

/-- A global function of the section `.text`. -/
def Declared.listed (s : Declared) : Bool := s.info == 0x12 && s.placement == .text

/-- A name that a table of strings can hold and a scan lists. -/
structure Declared.Named (s : Declared) : Prop where
  filled : s.name ≠ ""
  zeroFree : '\x00' ∉ s.name.toList

/-- The offsets of an image fit their fields, and its size is a 64-bit number. -/
structure Fits (l : Layout) (syms : List Declared) : Prop where
  names : ∀ i < syms.length, (stringTable ((syms.take i).map (·.name))).length < 256 ^ 4
  table : tableOffset l syms < 256 ^ l.wordSize
  size : (image l syms).length < Word.size64

/-! ## Sections -/

/-- An entry tells where the bytes and the name of a section lie. -/
structure Describes (d names : Bytes) (r : Row) (c : Chunk) : Prop where
  bytes : At d r.offset c.bytes
  size : r.size = c.bytes.length
  name : At names r.name (stringBytes c.name)
  code : r.code = c.code
  entrySize : r.entrySize = c.entrySize

section

variable {d names : Bytes} {o n : Nat} {l : Layout} {r : Row} {c : Chunk} {cs : List Chunk} {syms : List Declared}

theorem Describes.append (h : Describes d names r c) (post : Bytes) : Describes (d ++ post) names r c :=
  ⟨h.bytes.append post, h.size, h.name, h.code, h.entrySize⟩

/-- The table of sections describes the sections that lie one after the other. -/
theorem rowsFrom_describe (h : At d o (body cs)) (hnames : At names n (cs.flatMap fun c => stringBytes c.name)) :
    List.Forall₂ (Describes d names) (rowsFrom n o cs) cs := by
  induction cs generalizing n o with
  | nil => exact .nil
  | cons c cs ih =>
    have hfirst : At d o (padded c.bytes) := At.left (c := body cs) h
    exact .cons ⟨hfirst.left, rfl, hnames.left, rfl, rfl⟩ (ih (At.right (b := padded c.bytes) h) hnames.right)

theorem Describes.fits (h : Describes d names r c) (hd : d.length < 256 ^ l.wordSize)
    (hnames : names.length < 256 ^ 4)
    (hcode : c.code < 256 ^ 4) (hentry : c.entrySize < 256 ^ l.wordSize) : r.Fits l := by
  have hbytes := h.bytes.le
  have hname := h.name.le
  have hsize := h.size
  exact ⟨by omega, h.code ▸ hcode, by omega, by omega, h.entrySize ▸ hentry⟩

/-- The bytes of a section are read back. -/
theorem Describes.contents (h : Describes d names r c) (hd : d.length < Word.size64) :
    r.section.contents d.toArray = .ok c.bytes.toArray := by
  have hle := h.bytes.le
  have hextract : d.toArray.extract r.offset (r.offset + c.bytes.length) = c.bytes.toArray := by
    rw [← Array.toList_inj, h.bytes.extract]
  show (checkedRange d.toArray "section" r.offset r.size).map _ = _
  unfold checkedRange
  rw [h.size, if_neg (by unfold Layout.limit; omega), if_neg (by rw [List.size_toArray]; omega)]
  exact congrArg Except.ok hextract

/-! ## Symbols -/

theorem isFunction_eq (s : Symbol) : s.isFunction = decide (s.info % 16 = 2) := by
  have hkinds : ∀ k < 16, (SymbolKind.ofCode k == .func) = decide (k = 2) := by decide
  exact hkinds (s.info % 16) (Nat.mod_lt _ (by decide))

theorem isGlobal_eq (s : Symbol) : s.isGlobal = decide (s.info / 16 = 1) := by
  unfold Symbol.isGlobal Symbol.binding Binding.ofCode
  generalize s.info / 16 = k
  repeat' split
  all_goals simp_all

/-- The symbol of an entry passes the tests of a scan when it is a global function of the second section. -/
theorem tests_symbol (s : Declared) (i name : Nat) :
    ((s.symbol l i name).isFunction && (s.symbol l i name).isGlobal && (s.symbol l i name).sectionIndex == 1) =
      s.listed := by
  have hinfo : (decide (s.info.toNat % 16 = 2) && decide (s.info.toNat / 16 = 1)) = (s.info == 0x12) := by
    rw [Bool.eq_iff_iff, Bool.and_eq_true, decide_eq_true_iff, decide_eq_true_iff, beq_iff_eq, ← UInt8.toNat_inj]
    show _ ↔ s.info.toNat = 18
    omega
  have hplacement : (s.placement.index == 1) = (s.placement == .text) := by cases s.placement <;> rfl
  rw [isFunction_eq, isGlobal_eq]
  exact congrArg₂ (· && ·) hinfo hplacement

theorem listedName_symbol {s : Declared} {i name : Nat} (h : At d name (stringBytes s.name)) (hs : s.Named)
    (hname : 0 < name) : listedName d.toArray 1 (s.symbol l i name) = if s.listed then some s.name else none := by
  have hfilled : s.name.isEmpty = false := by simpa using hs.filled
  have hname' : ((s.symbol l i name).name != 0) = true := by
    show (name != 0) = true
    simp
    omega
  have hread : stringAt d.toArray (s.symbol l i name).name = .ok s.name := h.string hs.zeroFree
  unfold listedName
  rw [tests_symbol, hname', Bool.and_true, hread]
  split
  · simp [hfilled]
  · rfl

/-- The scan of a symbol table. -/
theorem listFrom_symbols {i name : Nat} {strings : Bytes} (h : At d o (symbolsFrom l i name syms))
    (hd : d.length < Word.size64) (hstrings : At strings name (syms.flatMap fun s => stringBytes s.name))
    (hname : 0 < name)
    (hfits : ∀ k < syms.length, name + ((syms.take k).flatMap fun s => stringBytes s.name).length < 256 ^ 4)
    (hnamed : ∀ s ∈ syms, s.Named) :
    listFrom l d.toArray strings.toArray 1 l.symbolSize syms.length o = (syms.filter (·.listed)).map (·.name) := by
  induction syms generalizing i name o with
  | nil => rfl
  | cons s syms ih =>
    have hfirst : Symbol.parse l d.toArray o = .ok (s.symbol l i name) :=
      At.symbol (At.left h) hd (by simpa using hfits 0 (by simp))
    have hlisted := listedName_symbol (l := l) (i := i) hstrings.left (hnamed s List.mem_cons_self) hname
    -- the place of the entry and that of its name move on together
    have hrest := ih ((At.right h).to (by rw [length_fields])) hstrings.right (by omega)
      (fun k hk => by simpa [Nat.add_assoc] using hfits (k + 1) (by simpa using hk))
      (fun s' hs' => hnamed s' (List.mem_cons_of_mem s hs'))
    rw [List.length_cons, listFrom, hfirst]
    dsimp only
    rw [hlisted, hrest]
    cases hs : s.listed <;> simp [hs]

theorem length_symbolsFrom (l : Layout) (i name : Nat) (syms : List Declared) :
    (symbolsFrom l i name syms).length = l.symbolSize * syms.length := by
  induction syms generalizing i name with
  | nil => rfl
  | cons s syms ih =>
    rw [symbolsFrom, List.length_append, ih, length_fields, List.length_cons, Nat.mul_succ, Nat.add_comm]

theorem length_symbolTable (l : Layout) (syms : List Declared) :
    (symbolTable l syms).length = l.symbolSize * (syms.length + 1) := by
  rw [symbolTable, List.length_append, length_symbolsFrom, List.length_replicate, Nat.mul_succ, Nat.add_comm]

/-- The symbol in front of all others is no function. -/
theorem parse_null (h : At d o (List.replicate l.symbolSize 0)) (hd : d.length < Word.size64) :
    Symbol.parse l d.toArray o = .ok ⟨0, 0, 0, 0, 0, 0⟩ := by
  have hle := h.le
  rw [List.length_replicate] at hle
  have hzero : ∀ {j w}, j + w ≤ l.symbolSize → l.number d.toArray (o + j) w = .ok 0 := h.zero hd
  refine parse_of_numbers hle hd (hzero (j := 0) ?_) (hzero ?_) (hzero ?_) (hzero ?_) (hzero ?_) (hzero ?_) <;>
    rcases l with ⟨_ | _, e⟩ <;> simp [Layout.symbolSize, Layout.pick, Layout.wordSize]

/-! ## The parts of an image -/

theorem fits_of_describe {rs : List Row} (h : List.Forall₂ (Describes d names) rs cs)
    (hd : d.length < 256 ^ l.wordSize) (hnames : names.length < 256 ^ 4)
    (hcs : ∀ c ∈ cs, c.code < 256 ^ 4 ∧ c.entrySize < 256 ^ l.wordSize) : ∀ r ∈ rs, r.Fits l := by
  induction h with
  | nil => simp
  | cons hdesc _ ih =>
    rw [List.forall_mem_cons] at hcs ⊢
    exact ⟨hdesc.fits hd hnames hcs.1.1 hcs.1.2, ih hcs.2⟩

/-- An image up to its table of sections. -/
def front (l : Layout) (syms : List Declared) : Bytes :=
  padded (headerFields l (tableOffset l syms)).flatten ++ body (chunks l syms)

theorem length_header (l : Layout) (t : Nat) : (padded (headerFields l t).flatten).length = bodyOffset l := by
  rcases l with ⟨_ | _, e⟩ <;>
    simp [padded, headerFields, magic, bodyOffset, Layout.wordSize, Layout.pick]

theorem length_front (l : Layout) (syms : List Declared) : (front l syms).length = tableOffset l syms := by
  rw [front, List.length_append, length_header, tableOffset]

theorem header_at (l : Layout) (syms : List Declared) :
    At (image l syms) 0 (headerFields l (tableOffset l syms)).flatten :=
  (((at_self _).append _).append _).left

theorem table_at (l : Layout) (syms : List Declared) :
    At (image l syms) (tableOffset l syms) ((rows l syms).flatMap fun r => (r.fields l).flatten) :=
  (at_append (front l syms) _).to (length_front l syms)

theorem front_describes (l : Layout) (syms : List Declared) :
    List.Forall₂ (Describes (front l syms) (stringTable sectionNames)) (rowsFrom 1 (bodyOffset l) (chunks l syms))
      (chunks l syms) :=
  rowsFrom_describe ((at_append _ _).to (length_header ..)) (at_append [0] _)

theorem image_describes (l : Layout) (syms : List Declared) :
    List.Forall₂ (Describes (image l syms) (stringTable sectionNames)) (rowsFrom 1 (bodyOffset l) (chunks l syms))
      (chunks l syms) :=
  (front_describes l syms).imp fun _ _ h => h.append _

theorem rows_fit (h : Fits l syms) : ∀ r ∈ rows l syms, r.Fits l := by
  have hpos : ∀ {k}, 0 < 256 ^ k := Nat.pow_pos (by omega)
  have hnull : Row.null.Fits l := ⟨by decide, by decide, hpos, hpos, hpos⟩
  have hentry : ∀ c ∈ chunks l syms, c.code < 256 ^ 4 ∧ c.entrySize < 256 ^ l.wordSize := by
    rcases l with ⟨_ | _, e⟩ <;> simp [chunks, Layout.symbolSize, Layout.wordSize, Layout.pick]
  rw [rows, List.forall_mem_cons]
  exact ⟨hnull, fits_of_describe (front_describes l syms) (by rw [length_front]; exact h.table) (by decide) hentry⟩

theorem length_table (l : Layout) (rs : List Row) :
    (rs.flatMap fun r => (r.fields l).flatten).length = l.sectionSize * rs.length := by
  induction rs with
  | nil => rfl
  | cons r rs ih =>
    rw [List.flatMap_cons, List.length_append, ih, length_row, List.length_cons, Nat.mul_succ, Nat.add_comm]

theorem parseTable_image (h : Fits l syms) :
    Section.parseTable l (image l syms).toArray ⟨tableOffset l syms, l.sectionSize, 6⟩ =
      .ok ((rows l syms).map Row.section) := by
  have hsize := h.size
  have hle : tableOffset l syms + l.sectionSize * 6 ≤ (image l syms).length :=
    length_table l (rows l syms) ▸ (table_at l syms).le
  unfold Section.parseTable checkedRange
  dsimp only
  rw [if_neg (by omega), if_neg (by unfold Layout.limit; omega), if_neg (by rw [List.size_toArray]; omega)]
  exact parseFrom_rows (table_at l syms) hsize (rows_fit h)

/-! ## Finding the tables -/

theorem Describes.stringAt (h : Describes d names r c) (hc : '\x00' ∉ c.name.toList) :
    stringAt names.toArray r.section.name = .ok c.name :=
  h.name.string hc

theorem Describes.kind (h : Describes d names r c) : r.section.kind = .ofCode c.code :=
    congrArg SectionKind.ofCode h.code

theorem ofIdent_image (h : At d 0 (headerFields l n).flatten) : Layout.ofIdent d.toArray = .ok l := by
  have hmagic : At d 0 magic := h.part 0 (by simp [headerFields])
  have hident : At d 4 [l.cls.byte, l.encoding.byte, 1] :=
    (h.part 1 (by simp [headerFields])).to (by simp [headerFields, magic])
  have hrest : At d 7 (List.replicate 9 0) := (h.part 2 (by simp [headerFields])).to (by simp [headerFields, magic])
  have hle := hrest.le
  have hfour : (d.toArray.extract 0 4).toList = magic := hmagic.extract
  have hcls : d.toArray.getD 4 0 = l.cls.byte := At.getD hident
  have hencoding : d.toArray.getD 5 0 = l.encoding.byte := At.getD (At.right (b := [l.cls.byte]) hident)
  rw [List.length_replicate] at hle
  unfold Layout.ofIdent
  rw [if_neg (by rw [List.size_toArray]; unfold identSize; omega), if_neg (by rw [hfour]; simp), hcls, hencoding]
  rcases l with ⟨_ | _, _ | _⟩ <;> rfl

theorem addAll_named {names : Data} {null text data symbols strings last : Section}
    (hnull : stringAt names null.name = .ok "") (htext : stringAt names text.name = .ok ".text")
    (hdata : stringAt names data.name = .ok ".data")
    (hsymbols : stringAt names symbols.name = .ok ".dynsym") (hstrings : stringAt names strings.name = .ok ".dynstr")
    (hlast : stringAt names last.name = .ok ".shstrtab") (htable : symbols.isSymbolTable = true)
    (hkind : strings.isStringTable = true) :
    Found.addAll names 0 [null, text, data, symbols, strings, last] ⟨none, none, none⟩ =
      ⟨some symbols, some strings, some 1⟩ := by
  simp [Found.addAll, Found.add, hnull, htext, hdata, hsymbols, hstrings, hlast, htable, hkind]

theorem probe_image (h : Fits l syms) :
    probe (image l syms).toArray = .ok (l, ⟨.dyn, ⟨tableOffset l syms, l.sectionSize, 6⟩, 5⟩) := by
  unfold probe
  rw [ofIdent_image (header_at l syms)]
  simp only [bind, Except.bind]
  rw [parse_header (header_at l syms) h.size h.table]
  rfl

/-- A scan finds the sections of the symbols and of their names. -/
theorem locate_image (h : Fits l syms) : ∃ symbols strings,
    Describes (image l syms) (stringTable sectionNames) symbols
      ⟨".dynsym", 11, 4, l.symbolSize, symbolTable l syms⟩ ∧
    Describes (image l syms) (stringTable sectionNames) strings
      ⟨".dynstr", 3, 0, 0, stringTable (syms.map (·.name))⟩ ∧
    locate (image l syms).toArray l ⟨.dyn, ⟨tableOffset l syms, l.sectionSize, 6⟩, 5⟩ =
      .ok ⟨symbols.section, strings.section, 1⟩ := by
  have hzero : ∀ name ∈ sectionNames, '\x00' ∉ name.toList := by decide
  have hparsed := parseTable_image h
  have hdesc := image_describes l syms
  rw [rows] at hparsed
  generalize rowsFrom 1 (bodyOffset l) (chunks l syms) = rs at hparsed hdesc
  unfold chunks at hdesc
  obtain _ | ⟨htext, _ | ⟨hdata, _ | ⟨hsymbols, _ | ⟨hstrings, _ | ⟨hlast, _ | _⟩⟩⟩⟩⟩ := hdesc
  have hnull : Elf.stringAt (stringTable sectionNames).toArray Row.null.section.name = .ok "" :=
    At.string (s := "") (at_self (stringTable sectionNames)).left (by decide)
  have htable := hsymbols.kind
  have hkind := hstrings.kind
  have hfound := addAll_named hnull (htext.stringAt (hzero _ (by simp [sectionNames])))
    (hdata.stringAt (hzero _ (by simp [sectionNames]))) (hsymbols.stringAt (hzero _ (by simp [sectionNames])))
    (hstrings.stringAt (hzero _ (by simp [sectionNames]))) (hlast.stringAt (hzero _ (by simp [sectionNames])))
    (by rw [Section.isSymbolTable, htable]; rfl) (by rw [Section.isStringTable, hkind]; rfl)
  refine ⟨_, _, hsymbols, hstrings, ?_⟩
  -- the header names the sixth entry, whose bytes are the names that the others are found by
  unfold locate
  rw [hparsed]
  simp only [bind, Except.bind, List.map_cons, List.map_nil, List.getElem?_cons_succ, List.getElem?_cons_zero]
  rw [hlast.contents h.size]
  simp only [hfound]
  rfl

/-! ## Main theorem -/

/-- The scan of a whole symbol table, the first symbol included. -/
theorem listFrom_table (h : Fits l syms) (hnamed : ∀ s ∈ syms, s.Named)
    (hd : (symbolTable l syms).length < Word.size64) :
    listFrom l (symbolTable l syms).toArray (stringTable (syms.map (·.name))).toArray 1 l.symbolSize
        (syms.length + 1) 0 =
      (syms.filter (·.listed)).map (·.name) := by
  have hnull : At (symbolTable l syms) 0 (List.replicate l.symbolSize 0) := (at_self (symbolTable l syms)).left
  have hrest : At (symbolTable l syms) (0 + l.symbolSize) (symbolsFrom l 0 1 syms) :=
    (at_append _ _).to (by rw [List.length_replicate, Nat.zero_add])
  have hstrings : At (stringTable (syms.map (·.name))) 1 (syms.flatMap fun s => stringBytes s.name) := by
    rw [stringTable, List.flatMap_map]
    exact at_append [0] _
  have hfits : ∀ k < syms.length, 1 + ((syms.take k).flatMap fun s => stringBytes s.name).length < 256 ^ 4 := by
    intro k hk
    have hname := h.names k hk
    rwa [stringTable, List.length_cons, List.flatMap_map, Nat.add_comm] at hname
  rw [listFrom, parse_null hnull hd]
  exact listFrom_symbols hrest hd hstrings (by decide) hfits hnamed

/-- What a scan finds in an image, of any layout. -/
theorem scan_succeeds (h : Fits l syms) (hnamed : ∀ s ∈ syms, s.Named) :
    scan? (image l syms).toArray = .ok ((syms.filter (·.listed)).map (·.name)) := by
  have hd := h.size
  obtain ⟨symbols, strings, hsymbols, hstrings, hlocate⟩ := locate_image h
  have htable : (symbolTable l syms).length < Word.size64 :=
    Nat.lt_of_le_of_lt (Nat.le_trans (Nat.le_add_left _ _) hsymbols.bytes.le) hd
  have hentry : symbols.section.entrySize = l.symbolSize := hsymbols.entrySize
  have hcount : (symbolTable l syms).toArray.size / l.symbolSize = syms.length + 1 := by
    rw [List.size_toArray, length_symbolTable]
    exact Nat.mul_div_cancel_left _ (by rcases l with ⟨_ | _, e⟩ <;> simp [Layout.symbolSize, Layout.pick])
  unfold scan?
  rw [probe_image h]
  simp only [bind, Except.bind, pure, Except.pure]
  rw [hlocate]
  dsimp only
  rw [hsymbols.contents hd, hstrings.contents hd]
  dsimp only
  rw [hentry, hcount, listFrom_table h hnamed htable]

/-- Scanning undoes building: an image is a shared object, and a scan of it finds, in their order and as often as
they occur, the names of the global functions in `.text`; so that all layouts give the same answer. -/
theorem scan_image (h : Fits l syms) (hnamed : ∀ s ∈ syms, s.Named) :
    isShared (image l syms).toArray = true ∧
    scan (image l syms).toArray = (syms.filter (·.listed)).map (·.name) ∧
    ∀ l', Fits l' syms → scan (image l' syms).toArray = scan (image l syms).toArray := by
  have hscan : ∀ l, Fits l syms → scan (image l syms).toArray = (syms.filter (·.listed)).map (·.name) := by
    intro l hl
    rw [scan, scan_succeeds hl hnamed]
    rfl
  refine ⟨?_, hscan l h, fun l' h' => (hscan l' h').trans (hscan l h).symm⟩
  rw [isShared, probe_image h]
  rfl

end

/-- Two functions of one name, one with letters of two bytes, and three symbols that no scan lists. -/
def mixed : List Declared :=
  [⟨"check", 0x12, .text⟩, ⟨"prüfe", 0x12, .text⟩, ⟨"check", 0x02, .text⟩, ⟨"check", 0x12, .undefined⟩,
   ⟨"table", 0x11, .data⟩, ⟨"check", 0x12, .text⟩]

theorem scan_of_mixed :
    (Fits ⟨.elf32, .msb⟩ mixed ∧ Fits ⟨.elf64, .lsb⟩ mixed ∧ ∀ s ∈ mixed, s.Named) ∧
    isShared (image ⟨.elf32, .msb⟩ mixed).toArray = true ∧
    scan (image ⟨.elf32, .msb⟩ mixed).toArray = ["check", "prüfe", "check"] ∧
    scan (image ⟨.elf64, .lsb⟩ mixed).toArray = ["check", "prüfe", "check"] := by
  have hnarrow : Fits ⟨.elf32, .msb⟩ mixed := ⟨by decide, by decide +kernel, by decide +kernel⟩
  have hwide : Fits ⟨.elf64, .lsb⟩ mixed := ⟨by decide, by decide +kernel, by decide +kernel⟩
  have hnamed : ∀ s ∈ mixed, s.Named := by
    intro s hs
    have hall : ∀ s ∈ mixed, s.name ≠ "" ∧ '\x00' ∉ s.name.toList := by decide
    exact ⟨(hall s hs).1, (hall s hs).2⟩
  have hlisted : (mixed.filter (·.listed)).map (·.name) = ["check", "prüfe", "check"] := by decide
  obtain ⟨hshared, hscan, hsame⟩ := scan_image hnarrow hnamed
  exact ⟨⟨hnarrow, hwide, hnamed⟩, hshared, hscan.trans hlisted, (hsame _ hwide).trans (hscan.trans hlisted)⟩

end Overseer.Elf
