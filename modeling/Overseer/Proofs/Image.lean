import Mathlib.Algebra.Group.Nat.Defs
import Overseer.Elf.Scan
import Overseer.Proofs.Utf8

/-!
# Images of shared objects

An image is a shared object with five sections, written in one of the four layouts.  The sections follow the
header, each at a multiple of eight, and the table of the sections follows them.

    image l syms  =  header, .text, .data, .dynsym, .dynstr, .shstrtab, table
    .dynsym       =  a null symbol, then one entry for each of syms
    .dynstr       =  a zero byte, then the names of syms, each ended by a zero byte

    At d o b      =  the bytes b lie in d, from o on

What has been written at an offset is what is read there.

Main statements: `At.number`, `At.row`, `At.symbol`, `At.string`.
-/

namespace Overseer.Elf

open Text

/-! ## Numbers -/

def Class.byte : Class → UInt8
  | elf32 => 1
  | elf64 => 2

def Encoding.byte : Encoding → UInt8
  | lsb => 1
  | msb => 2

namespace Layout

/-- The `w` low bytes of a number. -/
def bytes (l : Layout) (w n : Nat) : Bytes := match l.encoding with
  | .lsb => Bytes.ofNat w n
  | .msb => (Bytes.ofNat w n).reverse

def wordBytes (l : Layout) (n : Nat) : Bytes := l.bytes l.wordSize n

end Layout

/-! ## Strings and symbols -/

def stringBytes (s : String) : Bytes := Utf8.encode s ++ [0]

def stringTable (names : List String) : Bytes := 0 :: names.flatMap stringBytes

/-- Where a symbol is said to lie. -/
inductive Placement
  | text
  | data
  | undefined
  | absolute
  deriving DecidableEq, Repr

def Placement.index : Placement → Nat
  | text => 1
  | data => 2
  | undefined => 0
  | absolute => 0xFFF1

/-- A symbol that is to be written. -/
structure Declared where
  name : String
  info : UInt8
  placement : Placement
  deriving Repr

/-- The `i`-th symbol, whose name begins at `name`. -/
def Declared.fields (l : Layout) (s : Declared) (i name : Nat) : List Bytes := match l.cls with
  | .elf32 => [l.bytes 4 name, l.wordBytes (0x1000 + 0x10 * i), l.wordBytes 0x10, [s.info, 0],
    l.bytes 2 s.placement.index]
  | .elf64 => [l.bytes 4 name, [s.info, 0], l.bytes 2 s.placement.index, l.wordBytes (0x1000 + 0x10 * i),
    l.wordBytes 0x10]

def symbolsFrom (l : Layout) : (i name : Nat) → List Declared → Bytes
  | _, _, [] => []
  | i, name, s :: r => (s.fields l i name).flatten ++ symbolsFrom l (i + 1) (name + (stringBytes s.name).length) r

def symbolTable (l : Layout) (syms : List Declared) : Bytes :=
  List.replicate l.symbolSize 0 ++ symbolsFrom l 0 1 syms

/-! ## Sections -/

/-- A section that is to be written. -/
structure Chunk where
  name : String
  code : Nat
  link : Nat
  entrySize : Nat
  bytes : Bytes

def sectionNames : List String := [".text", ".data", ".dynsym", ".dynstr", ".shstrtab"]

def chunks (l : Layout) (syms : List Declared) : List Chunk :=
  [⟨".text", 1, 0, 0, List.replicate 32 0xC3⟩, ⟨".data", 1, 0, 0, List.replicate 16 0⟩,
   ⟨".dynsym", 11, 4, l.symbolSize, symbolTable l syms⟩, ⟨".dynstr", 3, 0, 0, stringTable (syms.map (·.name))⟩,
   ⟨".shstrtab", 3, 0, 0, stringTable sectionNames⟩]

/-- Zero bytes up to the next multiple of eight. -/
def padded (b : Bytes) : Bytes := b ++ List.replicate ((8 - b.length % 8) % 8) 0

def body (cs : List Chunk) : Bytes := cs.flatMap fun c => padded c.bytes

/-- An entry of the table of sections. -/
structure Row where
  name : Nat
  code : Nat
  offset : Nat
  size : Nat
  link : Nat
  entrySize : Nat

def Row.fields (l : Layout) (r : Row) : List Bytes :=
  [l.bytes 4 r.name, l.bytes 4 r.code, l.wordBytes 0, l.wordBytes 0, l.wordBytes r.offset, l.wordBytes r.size,
   l.bytes 4 r.link, l.bytes 4 0, l.wordBytes 0, l.wordBytes r.entrySize]

/-- The entries of sections whose names begin at `name`, and which lie from `offset` on. -/
def rowsFrom : (name offset : Nat) → List Chunk → List Row
  | _, _, [] => []
  | name, offset, c :: r => ⟨name, c.code, offset, c.bytes.length, c.link, c.entrySize⟩ ::
      rowsFrom (name + (stringBytes c.name).length) (offset + (padded c.bytes).length) r

def Row.null : Row := ⟨0, 0, 0, 0, 0, 0⟩

/-! ## Images -/

def headerFields (l : Layout) (tableOffset : Nat) : List Bytes :=
  [magic, [l.cls.byte, l.encoding.byte, 1], List.replicate 9 0, l.bytes 2 3, l.bytes 2 0x3E, l.bytes 4 1,
    l.wordBytes 0,
   l.wordBytes 0, l.wordBytes tableOffset, l.bytes 4 0, l.bytes 2 l.headerSize, l.bytes 2 0, l.bytes 2 0,
   l.bytes 2 l.sectionSize, l.bytes 2 6, l.bytes 2 5]

/-- Where the first section lies. -/
def bodyOffset (l : Layout) : Nat := l.pick 56 64

/-- Where the table of sections lies. -/
def tableOffset (l : Layout) (syms : List Declared) : Nat := bodyOffset l + (body (chunks l syms)).length

def rows (l : Layout) (syms : List Declared) : List Row := .null :: rowsFrom 1 (bodyOffset l) (chunks l syms)

def image (l : Layout) (syms : List Declared) : Bytes :=
  padded (headerFields l (tableOffset l syms)).flatten ++ body (chunks l syms) ++
    (rows l syms).flatMap fun r => (r.fields l).flatten

/-! ## Bytes at an offset -/

def At (d : Bytes) (o : Nat) (b : Bytes) : Prop := ∃ pre post, d = pre ++ (b ++ post) ∧ pre.length = o

section

variable {d b c : Bytes} {o n w : Nat} {l : Layout}

theorem at_self (d : Bytes) : At d 0 d := ⟨[], [], by simp, rfl⟩

theorem at_append (pre b : Bytes) : At (pre ++ b) pre.length b := ⟨pre, [], by simp, rfl⟩

theorem At.append (h : At d o b) (post : Bytes) : At (d ++ post) o b := by
  obtain ⟨pre, rest, rfl, ho⟩ := h
  exact ⟨pre, rest ++ post, by simp, ho⟩

theorem At.left (h : At d o (b ++ c)) : At d o b := by
  obtain ⟨pre, post, rfl, ho⟩ := h
  exact ⟨pre, c ++ post, by simp, ho⟩

theorem At.right (h : At d o (b ++ c)) : At d (o + b.length) c := by
  obtain ⟨pre, post, rfl, rfl⟩ := h
  exact ⟨pre ++ b, post, by simp, by simp⟩

theorem At.to {p : Nat} (h : At d o b) (hp : o = p) : At d p b := hp ▸ h

theorem At.le (h : At d o b) : o + b.length ≤ d.length := by
  obtain ⟨pre, post, rfl, rfl⟩ := h
  simp

/-- The parts of what has been written one after the other. -/
theorem At.part {bs : List Bytes} (h : At d o bs.flatten) (i : Nat) (hi : i < bs.length) :
    At d (o + (bs.take i).flatten.length) bs[i] := by
  have hsplit : bs.flatten = (bs.take i).flatten ++ (bs[i] ++ (bs.drop (i + 1)).flatten) := by
    rw [← List.flatten_cons, List.getElem_cons_drop, ← List.flatten_append, List.take_append_drop]
  rw [hsplit] at h
  exact h.right.left

theorem At.extract (h : At d o b) : (d.toArray.extract o (o + b.length)).toList = b := by
  obtain ⟨pre, post, rfl, rfl⟩ := h
  simp [List.extract_eq_take_drop]

theorem At.getD {x y : UInt8} (h : At d o (x :: b)) : d.toArray.getD o y = x := by
  obtain ⟨pre, post, rfl, rfl⟩ := h
  simp

/-! ## Reading numbers -/

@[simp] theorem length_bytes (l : Layout) (w n : Nat) : (l.bytes w n).length = w := by
  unfold Layout.bytes
  split <;> simp

@[simp] theorem length_wordBytes (l : Layout) (n : Nat) : (l.wordBytes n).length = l.wordSize := length_bytes ..

theorem value_bytes (l : Layout) (w n : Nat) : l.value (l.bytes w n) = n % 256 ^ w := by
  have hlittle : Bytes.little (Bytes.ofNat w n) = n % 256 ^ w := Bytes.little_ofNat w n
  obtain ⟨cls, encoding⟩ := l
  cases encoding with
  | lsb => exact hlittle
  | msb =>
    show Bytes.little (Bytes.ofNat w n).reverse.reverse = n % 256 ^ w
    rw [List.reverse_reverse, hlittle]

/-- What lies in an image whose size is a 64-bit number can be read. -/
theorem At.fixed (h : At d o b) (hd : d.length < Word.size64) (hw : b.length = w) :
    Layout.fixed d.toArray o w = .ok b := by
  subst hw
  have hle := h.le
  unfold Layout.fixed
  rw [if_neg (by unfold Layout.limit; omega), if_neg (by simpa using hle), h.extract]

theorem At.number_mod (h : At d o (l.bytes w n)) (hd : d.length < Word.size64) :
    l.number d.toArray o w = .ok (n % 256 ^ w) := by
  rw [Layout.number, h.fixed hd (length_bytes l w n)]
  exact congrArg Except.ok (value_bytes l w n)

theorem At.number (h : At d o (l.bytes w n)) (hd : d.length < Word.size64) (hn : n < 256 ^ w) :
    l.number d.toArray o w = .ok n := by
  rw [h.number_mod hd, Nat.mod_eq_of_lt hn]

theorem At.word (h : At d o (l.wordBytes n)) (hd : d.length < Word.size64) (hn : n < 256 ^ l.wordSize) :
    l.word d.toArray o = .ok n :=
  At.number h hd hn

/-- One byte is the same in both encodings. -/
theorem At.byte {x : UInt8} (h : At d o [x]) (hd : d.length < Word.size64) :
    l.number d.toArray o 1 = .ok x.toNat := by
  have hvalue : l.value [x] = x.toNat := by
    unfold Layout.value
    split <;> simp [Bytes.little, Bytes.big]
  rw [Layout.number, h.fixed (w := 1) hd rfl]
  exact congrArg Except.ok hvalue

/-- Zero bytes are zero in every width. -/
theorem At.zero {k : Nat} (h : At d o (List.replicate k 0)) (hd : d.length < Word.size64) {j : Nat} (hj : j + w ≤ k) :
    l.number d.toArray (o + j) w = .ok 0 := by
  have hsplit : List.replicate k (0 : UInt8) =
      List.replicate j 0 ++ (List.replicate w 0 ++ List.replicate (k - j - w) 0) := by
    rw [List.replicate_append_replicate, List.replicate_append_replicate]
    congr 1
    omega
  have hzero : List.replicate w 0 = l.bytes w 0 := by
    have hofNat : ∀ w, Bytes.ofNat w 0 = List.replicate w 0 := by
      intro w
      induction w with
      | zero => rfl
      | succ w ih => rw [Bytes.ofNat, Nat.zero_div, ih]; rfl
    unfold Layout.bytes
    split <;> simp [hofNat]
  rw [hsplit] at h
  have hpart := h.right.left
  rw [List.length_replicate, hzero] at hpart
  exact hpart.number hd (Nat.pow_pos (by omega))

/-! ## Reading strings -/

theorem zeroFrom_of_at (h : At d o (b ++ [0])) (hb : 0 ∉ b) {k : Nat} (hk : b.length < k) :
    zeroFrom d.toArray k o = some (o + b.length) := by
  induction b generalizing o k with
  | nil =>
    obtain ⟨k, rfl⟩ := Nat.exists_eq_succ_of_ne_zero (by omega : k ≠ 0)
    rw [zeroFrom, if_pos h.getD]
    simp
  | cons x b ih =>
    obtain ⟨k, rfl⟩ := Nat.exists_eq_succ_of_ne_zero (by omega : k ≠ 0)
    have hx : x ≠ 0 := fun hx => hb (hx ▸ List.mem_cons_self)
    have hrest : At d (o + 1) (b ++ [0]) := At.right (b := [x]) h
    rw [zeroFrom, At.getD (b := b ++ [0]) h, if_neg hx,
      ih hrest (fun hm => hb (List.mem_cons_of_mem x hm)) (by rw [List.length_cons] at hk; omega), List.length_cons]
    congr 1
    omega

/-- A string without NUL is read back. -/
theorem At.string {s : String} (h : At d o (stringBytes s)) (hs : '\x00' ∉ s.toList) :
    stringAt d.toArray o = .ok s := by
  have hzero : 0 ∉ Utf8.encode s := fun hm => hs ((Text.Utf8.zero_mem_encode s).1 hm)
  have hle := h.le
  have hlen : (stringBytes s).length = (Utf8.encode s).length + 1 := by simp [stringBytes]
  have hsize : (Utf8.encode s).length < d.toArray.size - o := by
    rw [List.size_toArray]
    omega
  unfold stringAt
  rw [zeroFrom_of_at h hzero hsize]
  dsimp only
  rw [At.extract (At.left h), Text.Utf8.decode_encode]

/-! ## Reading entries -/

theorem parse_header {t : Nat} (h : At d 0 (headerFields l t).flatten) (hd : d.length < Word.size64)
    (ht : t < 256 ^ l.wordSize) : Header.parse l d.toArray = .ok ⟨.dyn, ⟨t, l.sectionSize, 6⟩, 5⟩ := by
  have hsize : ¬ d.toArray.size < l.headerSize := by
    have hle := h.le
    have hlen : (headerFields l t).flatten.length = l.headerSize := by
      rcases l with ⟨_ | _, e⟩ <;> simp [headerFields, magic, Layout.wordSize, Layout.headerSize, Layout.pick]
    rw [List.size_toArray]
    omega
  have htype : At d 16 (l.bytes 2 3) := (h.part 3 (by simp [headerFields])).to (by simp [headerFields, magic])
  have htable : At d (l.pick 32 40) (l.wordBytes t) := (h.part 8 (by simp [headerFields])).to (by
    rcases l with ⟨_ | _, e⟩ <;> simp [headerFields, magic, Layout.wordSize, Layout.pick])
  have hentry : At d (l.pick 46 58) (l.bytes 2 l.sectionSize) := (h.part 13 (by simp [headerFields])).to (by
    rcases l with ⟨_ | _, e⟩ <;> simp [headerFields, magic, Layout.wordSize, Layout.pick])
  have hcount : At d (l.pick 48 60) (l.bytes 2 6) := (h.part 14 (by simp [headerFields])).to (by
    rcases l with ⟨_ | _, e⟩ <;> simp [headerFields, magic, Layout.wordSize, Layout.pick])
  have hnames : At d (l.pick 50 62) (l.bytes 2 5) := (h.part 15 (by simp [headerFields])).to (by
    rcases l with ⟨_ | _, e⟩ <;> simp [headerFields, magic, Layout.wordSize, Layout.pick])
  have hentrySize : l.sectionSize < 256 ^ 2 := by
    rcases l with ⟨_ | _, e⟩ <;> simp [Layout.sectionSize, Layout.pick]
  unfold Header.parse
  rw [if_neg hsize, htype.number hd (by decide), htable.word hd ht, hentry.number hd hentrySize,
    hcount.number hd (by decide), hnames.number hd (by decide)]
  rfl

/-- The section that an entry describes. -/
def Row.section (r : Row) : Section := ⟨r.name, .ofCode r.code, r.offset, r.size, r.entrySize⟩

/-- The numbers of an entry fit their fields. -/
structure Row.Fits (l : Layout) (r : Row) : Prop where
  name : r.name < 256 ^ 4
  code : r.code < 256 ^ 4
  offset : r.offset < 256 ^ l.wordSize
  size : r.size < 256 ^ l.wordSize
  entrySize : r.entrySize < 256 ^ l.wordSize

theorem length_row (l : Layout) (r : Row) : (r.fields l).flatten.length = l.sectionSize := by
  rcases l with ⟨_ | _, e⟩ <;> simp [Row.fields, Layout.wordSize, Layout.sectionSize, Layout.pick]

theorem place_of_le {p : Nat} (hp : p < Word.size64) {j : Nat} (hj : o + j ≤ p) :
    Section.place o j = .ok (o + j) := by
  unfold Section.place
  rw [if_neg (by unfold Layout.limit; omega)]

/-- An entry of the table of sections is read back. -/
theorem At.row {r : Row} (h : At d o (r.fields l).flatten) (hd : d.length < Word.size64) (hr : r.Fits l) :
    Section.parse l d.toArray o = .ok r.section := by
  have hname : At d (o + 0) (l.bytes 4 r.name) := (h.part 0 (by simp [Row.fields])).to (by simp)
  have hcode : At d (o + 4) (l.bytes 4 r.code) := (h.part 1 (by simp [Row.fields])).to (by simp [Row.fields])
  have hoffset : At d (o + l.pick 16 24) (l.wordBytes r.offset) := (h.part 4 (by simp [Row.fields])).to (by
    rcases l with ⟨_ | _, e⟩ <;> simp [Row.fields, Layout.wordSize, Layout.pick])
  have hsize : At d (o + l.pick 20 32) (l.wordBytes r.size) := (h.part 5 (by simp [Row.fields])).to (by
    rcases l with ⟨_ | _, e⟩ <;> simp [Row.fields, Layout.wordSize, Layout.pick])
  have hentry : At d (o + l.pick 36 56) (l.wordBytes r.entrySize) := (h.part 9 (by simp [Row.fields])).to (by
    rcases l with ⟨_ | _, e⟩ <;> simp [Row.fields, Layout.wordSize, Layout.pick])
  have hplace : ∀ {j b}, At d (o + j) b → Section.place o j = .ok (o + j) := fun hat =>
    place_of_le hd (Nat.le_trans (Nat.le_add_right _ _) hat.le)
  unfold Section.parse
  rw [hplace hname, hplace hcode, hplace hoffset, hplace hsize, hplace hentry]
  simp only [bind, Except.bind]
  rw [hname.number hd hr.name, hcode.number hd hr.code, hoffset.word hd hr.offset, hsize.word hd hr.size,
    hentry.word hd hr.entrySize]
  rfl

/-- A whole table is read back. -/
theorem parseFrom_rows {rs : List Row} (h : At d o (rs.flatMap fun r => (r.fields l).flatten))
    (hd : d.length < Word.size64) (hr : ∀ r ∈ rs, r.Fits l) :
    Section.parseFrom l d.toArray l.sectionSize rs.length o = .ok (rs.map Row.section) := by
  induction rs generalizing o with
  | nil => rfl
  | cons r rs ih =>
    have hfirst := At.row (At.left h) hd (hr r List.mem_cons_self)
    have hrest := ih ((At.right h).to (by rw [length_row])) fun r' hm => hr r' (List.mem_cons_of_mem r hm)
    rw [List.length_cons, Section.parseFrom, hfirst]
    simp only [bind, Except.bind]
    rw [hrest]
    rfl

theorem length_fields (l : Layout) (s : Declared) (i name : Nat) :
    (s.fields l i name).flatten.length = l.symbolSize := by
  rcases l with ⟨_ | _, e⟩ <;> simp [Declared.fields, Layout.wordSize, Layout.symbolSize, Layout.pick]

/-- The numbers of a symbol, wherever its class puts them. -/
theorem parse_of_numbers {name info other index value size : Nat} (hd : o + l.symbolSize ≤ d.length)
    (hlimit : d.length < Word.size64) (hname : l.number d.toArray o 4 = .ok name)
    (hinfo : l.number d.toArray (o + l.pick 12 4) 1 = .ok info)
    (hother : l.number d.toArray (o + l.pick 13 5) 1 = .ok other)
    (hindex : l.number d.toArray (o + l.pick 14 6) 2 = .ok index)
    (hvalue : l.word d.toArray (o + l.pick 4 8) = .ok value) (hsize : l.word d.toArray (o + l.pick 8 16) = .ok size) :
    Symbol.parse l d.toArray o = .ok ⟨name, info, other, index, value, size⟩ := by
  unfold Symbol.parse
  rw [if_neg (by unfold Layout.limit; omega), if_neg (by rw [List.size_toArray]; omega), hname, hinfo, hother, hindex,
    hvalue, hsize]
  rfl

/-- The symbol that an entry of the symbol table describes. -/
def Declared.symbol (l : Layout) (s : Declared) (i name : Nat) : Symbol :=
  ⟨name, s.info.toNat, 0, s.placement.index, (0x1000 + 0x10 * i) % 256 ^ l.wordSize, 0x10⟩

/-- An entry of the symbol table is read back, but for a value too large for its class. -/
theorem At.symbol {s : Declared} {i name : Nat} (h : At d o (s.fields l i name).flatten) (hd : d.length < Word.size64)
    (hname : name < 256 ^ 4) : Symbol.parse l d.toArray o = .ok (s.symbol l i name) := by
  have hle := h.le
  rw [length_fields] at hle
  have hindex : s.placement.index < 256 ^ 2 := by cases s.placement <;> decide
  have hword : 0x10 < 256 ^ l.wordSize := by rcases l with ⟨_ | _, e⟩ <;> simp [Layout.wordSize]
  -- The classes have the same fields in different orders.
  obtain ⟨cls, e⟩ := l
  cases cls with
  | elf32 =>
    have hfirst := (h.part 0 (by decide : 0 < 5)).to (p := o) (by simp)
    have hvalue := (h.part 1 (by decide : 1 < 5)).to (p := o + 4) (by simp [Declared.fields])
    have hsize := (h.part 2 (by decide : 2 < 5)).to (p := o + 8) (by simp [Declared.fields, Layout.wordSize])
    have hinfo : At d (o + 12) ([s.info] ++ [0]) :=
      (h.part 3 (by decide : 3 < 5)).to (by simp [Declared.fields, Layout.wordSize])
    have hlast := (h.part 4 (by decide : 4 < 5)).to (p := o + 14) (by simp [Declared.fields, Layout.wordSize])
    exact parse_of_numbers hle hd (hfirst.number hd hname) (hinfo.left.byte hd) (hinfo.right.byte hd)
      (hlast.number hd hindex) (hvalue.number_mod hd) (hsize.word hd hword)
  | elf64 =>
    have hfirst := (h.part 0 (by decide : 0 < 5)).to (p := o) (by simp)
    have hinfo : At d (o + 4) ([s.info] ++ [0]) := (h.part 1 (by decide : 1 < 5)).to (by simp [Declared.fields])
    have hsection := (h.part 2 (by decide : 2 < 5)).to (p := o + 6) (by simp [Declared.fields])
    have hvalue := (h.part 3 (by decide : 3 < 5)).to (p := o + 8) (by simp [Declared.fields])
    have hsize := (h.part 4 (by decide : 4 < 5)).to (p := o + 16) (by simp [Declared.fields, Layout.wordSize])
    exact parse_of_numbers hle hd (hfirst.number hd hname) (hinfo.left.byte hd) (hinfo.right.byte hd)
      (hsection.number hd hindex) (hvalue.number_mod hd) (hsize.word hd hword)

end

end Overseer.Elf
