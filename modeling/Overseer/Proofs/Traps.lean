import Overseer.Proofs.Listing

/-!
# Reading without traps

A scan calculates with offsets and sizes that come from the file, some of them with a check and some without.  `Steps`
takes the same way on 64-bit words: a sum or product that is not checked and does not fit, a division by zero and a
slice that does not lie in its data are traps, and a trap cannot be caught, as a reported error can.

    Ends x m  =  the steps x come to no trap, and report or give what m says

A sum is unchecked only where an earlier check has put its result below the size of the data.

Main statement: `reading_never_traps`.
-/

namespace Overseer.Elf

open Text

/-! ## Steps on words -/

inductive Trap
  | overflow
  | zeroDivisor
  | outOfRange
  deriving DecidableEq, Repr

/-- Steps come to a trap, report an error, or give a value. -/
abbrev Steps (α : Type) := ExceptT Error (Except Trap) α

namespace Steps

section

variable {α : Type}

def trap (t : Trap) : Steps α := ExceptT.mk (.error t)

/-- An answer that no step is needed for. -/
def answer (m : Except Error α) : Steps α := ExceptT.mk (.ok m)

/-- Go on after a reported error; a trap stays a trap. -/
def attempt (x : Steps α) : Steps (Except Error α) := ExceptT.mk (x.run.map .ok)

/-- What there is, or a reported error. -/
def present (x : Option α) (e : Error) : Steps α := answer (x.elim (.error e) .ok)

/-- A sum or product that is checked. -/
def checked (n : Nat) (e : Error) : Steps Nat := if n < Layout.limit then pure n else throw e

/-- A sum or product that is not checked. -/
def unchecked (n : Nat) : Steps Nat := if n < Layout.limit then pure n else trap .overflow

def quotient (n k : Nat) : Steps Nat := if k = 0 then trap .zeroDivisor else pure (n / k)

/-- The bytes from `start` up to `stop`, if there are such. -/
def part? (d : Data) (start stop : Nat) : Option Data :=
  if start ≤ stop ∧ stop ≤ d.size then some (d.extract start stop) else none

def slice (d : Data) (start stop : Nat) : Steps Data := (part? d start stop).elim (trap .outOfRange) pure

def byte (d : Data) (i : Nat) : Steps UInt8 := d[i]?.elim (trap .outOfRange) pure

/-! ## Numbers and ranges -/

def fixed (d : Data) (o w : Nat) : Steps Bytes := do
  let stop ← checked (o + w) (.invalidOffset "field" o)
  let part ← present (part? d o stop) (.bufferTooSmall stop d.size)
  return part.toList

def number (l : Layout) (d : Data) (o w : Nat) : Steps Nat := do
  let bytes ← fixed d o w
  return l.value bytes

def word (l : Layout) (d : Data) (o : Nat) : Steps Nat := number l d o l.wordSize

def range (d : Data) (what : String) (offset size : Nat) : Steps (Nat × Nat) := do
  let stop ← checked (offset + size) (.invalidOffset what offset)
  if d.size < stop then throw (.bufferTooSmall stop d.size) else return (offset, stop)

/-! ## Headers and sections -/

def ident (d : Data) : Steps Layout :=
  if d.size < identSize then throw (.bufferTooSmall identSize d.size)
  else do
    let front ← slice d 0 4
    if front.toList ≠ magic then throw .invalidMagic
    else do
      let c ← byte d 4
      let cls ← present (Class.ofByte? c.toNat) (.unsupportedClass c.toNat)
      let e ← byte d 5
      let encoding ← present (Encoding.ofByte? e.toNat) (.unsupportedEncoding e.toNat)
      return ⟨cls, encoding⟩

def header (l : Layout) (d : Data) : Steps Header :=
  if d.size < l.headerSize then throw (.bufferTooSmall l.headerSize d.size)
  else do
    let type ← number l d 16 2
    let offset ← word l d (l.pick 32 40)
    let entrySize ← number l d (l.pick 46 58) 2
    let count ← number l d (l.pick 48 60) 2
    let namesIndex ← number l d (l.pick 50 62) 2
    return ⟨.ofCode type, ⟨offset, entrySize, count⟩, namesIndex⟩

/-- The place of a field of a section. -/
def place (offset field : Nat) : Steps Nat := checked (offset + field) (.invalidOffset "section header" offset)

def parseSection (l : Layout) (d : Data) (offset : Nat) : Steps Section := do
  let name ← number l d (← place offset 0) 4
  let kind ← number l d (← place offset 4) 4
  let start ← word l d (← place offset (l.pick 16 24))
  let size ← word l d (← place offset (l.pick 20 32))
  let entrySize ← word l d (← place offset (l.pick 36 56))
  return ⟨name, .ofCode kind, start, size, entrySize⟩

def contents (s : Section) (d : Data) : Steps Data := do
  let r ← range d "section" s.offset s.size
  slice d r.1 r.2

/-- The entries of a table from the `i`-th on, `n` of them. -/
def rows (l : Layout) (d : Data) (start entrySize : Nat) : (n : Nat) → (i : Nat) → Steps (List Section)
  | 0, _ => return []
  | n + 1, i => do
    let offset ← unchecked (start + (← unchecked (i * entrySize)))
    let s ← parseSection l d offset
    let rest ← rows l d start entrySize n (i + 1)
    return s :: rest

def table (l : Layout) (d : Data) (t : SectionTable) : Steps (List Section) :=
  if 0 < t.count ∧ t.entrySize < l.sectionSize then throw (.bufferTooSmall l.sectionSize t.entrySize)
  else do
    let size ← checked (t.entrySize * t.count) (.invalidOffset "section header table" t.offset)
    let r ← range d "section header table" t.offset size
    rows l d r.1 t.entrySize t.count 0

/-! ## Symbols and strings -/

def parseSymbol (l : Layout) (d : Data) (offset : Nat) : Steps Symbol := do
  let stop ← checked (offset + l.symbolSize) (.invalidOffset "symbol" offset)
  if d.size < stop then throw (.bufferTooSmall stop d.size)
  else do
    let name ← number l d (← unchecked (offset + 0)) 4
    let info ← number l d (← unchecked (offset + l.pick 12 4)) 1
    let other ← number l d (← unchecked (offset + l.pick 13 5)) 1
    let index ← number l d (← unchecked (offset + l.pick 14 6)) 2
    let value ← word l d (← unchecked (offset + l.pick 4 8))
    let size ← word l d (← unchecked (offset + l.pick 8 16))
    return ⟨name, info, other, index, value, size⟩

def string (table : Data) (index : Nat) : Steps String :=
  if table.size ≤ index then throw (.invalidStringIndex index)
  else do
    let tail ← slice table index table.size
    let length ← present (tail.toList.findIdx? (· == 0)) (.invalidStringIndex index)
    let bytes ← slice table index (← unchecked (index + length))
    present (Utf8.decode bytes.toList) (.invalidStringIndex index)

/-! ## The scan -/

def probe (d : Data) : Steps (Layout × Header) := do
  let l ← ident d
  let h ← header l d
  if h.isShared then return (l, h) else throw (.notSharedObject h.type.code)

/-- A section counts by its name, and not at all if that cannot be read. -/
def found (f : Found) (index : Nat) (s : Section) : Except Error String → Found
  | .error _ => f
  | .ok name =>
    if name = ".dynsym" ∧ f.symbols.isNone ∧ s.isSymbolTable then { f with symbols := some s }
    else if name = ".dynstr" ∧ f.strings.isNone ∧ s.isStringTable then { f with strings := some s }
    else if name = ".text" ∧ f.text.isNone then { f with text := some index }
    else f

def findAll (names : Data) : Nat → List Section → Found → Steps Found
  | _, [], f => return f
  | i, s :: r, f => do
    let name ← attempt (string names s.name)
    findAll names (i + 1) r (found f i s name)

def locate (d : Data) (l : Layout) (h : Header) : Steps Tables := do
  let sections ← table l d h.table
  let s ← present sections[h.namesIndex]? (.missingSection ".shstrtab")
  let names ← contents s d
  let f ← findAll names 0 sections ⟨none, none, none⟩
  answer f.tables

def listed (strings : Data) (text : Nat) (s : Symbol) : Steps (Option String) :=
  if s.isFunction && s.isGlobal && s.sectionIndex == text && s.name != 0 then do
    let name ← attempt (string strings s.name)
    return name.toOption.filter fun name => !name.isEmpty
  else return none

/-- The names of the symbols from the `i`-th on, `n` of them. -/
def list (l : Layout) (symbols strings : Data) (text entrySize : Nat) : (n : Nat) → (i : Nat) → Steps (List String)
  | 0, _ => return []
  | n + 1, i => do
    let offset ← unchecked (i * entrySize)
    match ← attempt (parseSymbol l symbols offset) with
    | .error _ => return []
    | .ok s =>
      let name ← listed strings text s
      let rest ← list l symbols strings text entrySize n (i + 1)
      return name.toList ++ rest

def scan (d : Data) : Steps (List String) := do
  let (l, h) ← probe d
  let t ← locate d l h
  let symbols ← contents t.symbols d
  let strings ← contents t.strings d
  if t.symbols.entrySize = 0 then return []
  else do
    let n ← quotient symbols.size t.symbols.entrySize
    list l symbols strings t.text t.symbols.entrySize n 0

end

end Steps

/-- The steps come to no trap, and their outcome is `m`. -/
def Ends {α : Type} (x : Steps α) (m : Except Error α) : Prop := x.run = .ok m

/-- The steps come to no trap; where `p` holds they give a value, and elsewhere they report an error. -/
structure Safe {α : Type} (x : Steps α) (m : Except Error α) (p : Prop) : Prop where
  ends : Ends x m
  value : p → ∃ a, m = .ok a
  error : ¬ p → ∃ e, m = .error e

section

variable {α β : Type} {x : Steps α} {m : Except Error α} {g : α → Steps β} {k : α → Except Error β}

/-! ## Outcomes of steps -/

theorem Ends.bind (hx : Ends x m) (hg : ∀ a, m = .ok a → Ends (g a) (k a)) : Ends (x >>= g) (m >>= k) := by
  unfold Ends at *
  rw [ExceptT.run_bind, hx]
  cases m with
  | error e => rfl
  | ok a => exact hg a rfl

theorem Ends.map {f : α → β} (hx : Ends x m) (hg : ∀ a, m = .ok a → Ends (g a) (.ok (f a))) :
    Ends (x >>= g) (m.map f) := by
  have hmap : m.map f = m >>= fun a => .ok (f a) := by cases m <;> rfl
  rw [hmap]
  exact hx.bind hg

/-- Go on with what the first steps are known to give. -/
theorem Ends.go_on {y : Except Error β} {a : α} (hx : Ends x (.ok a)) (hg : Ends (g a) y) : Ends (x >>= g) y :=
  hx.bind (k := fun _ => y) fun _ ha => Except.ok.inj ha ▸ hg

theorem ends_pure (a : α) : Ends (pure a) (.ok a) := rfl

theorem ends_throw (e : Error) : Ends (throw e : Steps α) (.error e) := rfl

theorem ends_answer (m : Except Error α) : Ends (Steps.answer m) m := rfl

theorem Ends.attempt (hx : Ends x m) : Ends (Steps.attempt x) (.ok m) := by
  unfold Ends Steps.attempt at *
  rw [hx]
  rfl

theorem Ends.ite {p : Prop} [Decidable p] {y : Steps α} {m' : Except Error α} (hx : p → Ends x m)
    (hy : ¬ p → Ends y m') : Ends (if p then x else y) (if p then m else m') := by
  split
  · next h => exact hx h
  · next h => exact hy h

/-- A checked sum or product that does not fit is reported. -/
theorem ends_checked {n : Nat} {e : Error} {g : Nat → Steps α} (hg : n < Layout.limit → Ends (g n) m) :
    Ends (Steps.checked n e >>= g) (if Layout.limit ≤ n then .error e else m) := by
  unfold Steps.checked
  split
  · next h =>
    rw [if_neg (Nat.not_le.2 h)]
    exact hg h
  · next h =>
    rw [if_pos (Nat.not_lt.1 h)]
    exact ends_throw e

section

variable {d : Data} {n i start stop : Nat} {g : Nat → Steps α} {h : Data → Steps α}

/-! ## Where there is no trap -/

theorem ends_unchecked (hn : n < Layout.limit) (hg : Ends (g n) m) : Ends (Steps.unchecked n >>= g) m := by
  rw [Steps.unchecked, if_pos hn]
  exact hg

theorem ends_quotient {j : Nat} (hj : j ≠ 0) (hg : Ends (g (n / j)) m) : Ends (Steps.quotient n j >>= g) m := by
  rw [Steps.quotient, if_neg hj]
  exact hg

theorem part?_of_le (hle : start ≤ stop) (hsize : stop ≤ d.size) :
    Steps.part? d start stop = some (d.extract start stop) := if_pos ⟨hle, hsize⟩

theorem part?_of_lt (hsize : d.size < stop) : Steps.part? d start stop = none :=
  if_neg fun h => absurd h.2 (Nat.not_le.2 hsize)

theorem slice_of_le (hle : start ≤ stop) (hsize : stop ≤ d.size) :
    Steps.slice d start stop = pure (d.extract start stop) := by
  rw [Steps.slice, part?_of_le hle hsize]
  rfl

theorem ends_slice (hle : start ≤ stop) (hsize : stop ≤ d.size) (hh : Ends (h (d.extract start stop)) m) :
    Ends (Steps.slice d start stop >>= h) m := by
  rw [slice_of_le hle hsize]
  exact hh

theorem ends_byte {g : UInt8 → Steps α} (hi : i < d.size) (hg : Ends (g (d.getD i 0)) m) :
    Ends (Steps.byte d i >>= g) m := by
  rw [Array.getD_eq_getD_getElem?, Array.getElem?_eq_getElem hi] at hg
  rw [Steps.byte, Array.getElem?_eq_getElem hi]
  exact hg

end

end

section

variable {d table names symbols strings : Data} {l : Layout} {h : Header} {t : Tables} {s : Section}
  {ss : List Section}
  {e i n o w : Nat} {what : String}

/-! ## Numbers and ranges -/

theorem ends_fixed (d : Data) (o w : Nat) : Ends (Steps.fixed d o w) (Layout.fixed d o w) := by
  refine ends_checked fun _ => ?_
  by_cases hsize : d.size < o + w
  · rw [if_pos hsize, part?_of_lt hsize]
    exact ends_throw _
  · rw [if_neg hsize, part?_of_le (Nat.le_add_right o w) (Nat.not_lt.1 hsize)]
    exact ends_pure _

theorem ends_number (l : Layout) (d : Data) (o w : Nat) : Ends (Steps.number l d o w) (l.number d o w) :=
  (ends_fixed d o w).map fun b _ => ends_pure (l.value b)

theorem ends_word (l : Layout) (d : Data) (o : Nat) : Ends (Steps.word l d o) (l.word d o) :=
  ends_number l d o l.wordSize

theorem ends_range (d : Data) (what : String) (o n : Nat) : Ends (Steps.range d what o n) (checkedRange d what o n) :=
  ends_checked fun _ => .ite (fun _ => ends_throw _) fun _ => ends_pure _

/-! ## Headers and sections -/

theorem ends_ident (d : Data) : Ends (Steps.ident d) (Layout.ofIdent d) := by
  refine .ite (fun _ => ends_throw _) fun hsize => ?_
  have hsize : 16 ≤ d.size := Nat.not_lt.1 hsize
  refine ends_slice (by omega) (by omega) (.ite (fun _ => ends_throw _) fun _ => ?_)
  refine ends_byte (i := 4) (by omega) ?_
  dsimp only
  cases Class.ofByte? (d.getD 4 0).toNat with
  | none => exact ends_throw _
  | some cls =>
    refine ends_byte (i := 5) (by omega) ?_
    cases Encoding.ofByte? (d.getD 5 0).toNat with
    | none => exact ends_throw _
    | some encoding => exact ends_pure _

theorem ends_header (l : Layout) (d : Data) : Ends (Steps.header l d) (Header.parse l d) := by
  refine .ite (fun _ => ends_throw _) fun _ => ?_
  refine (ends_number l d _ _).bind fun type _ => (ends_word l d _).bind fun offset _ => ?_
  refine (ends_number l d _ _).bind fun entrySize _ => (ends_number l d _ _).bind fun count _ => ?_
  exact (ends_number l d _ _).bind fun namesIndex _ => ends_pure _

theorem ends_place (o n : Nat) : Ends (Steps.place o n) (Section.place o n) := by
  rw [← bind_pure (Steps.place o n)]
  exact ends_checked fun _ => ends_pure _

theorem ends_section (l : Layout) (d : Data) (o : Nat) : Ends (Steps.parseSection l d o) (Section.parse l d o) := by
  refine (ends_place o _).bind fun _ _ => (ends_number l d _ _).bind fun name _ => ?_
  refine (ends_place o _).bind fun _ _ => (ends_number l d _ _).bind fun kind _ => ?_
  refine (ends_place o _).bind fun _ _ => (ends_word l d _).bind fun start _ => ?_
  refine (ends_place o _).bind fun _ _ => (ends_word l d _).bind fun size _ => ?_
  exact (ends_place o _).bind fun _ _ => (ends_word l d _).bind fun entrySize _ => ends_pure _

theorem ends_contents (s : Section) (d : Data) : Ends (Steps.contents s d) (s.contents d) := by
  refine (ends_range d "section" s.offset s.size).map fun r hr => ?_
  obtain ⟨hin, rfl⟩ := checkedRange_eq_ok_iff.1 hr
  rw [slice_of_le (Nat.le_add_right ..) hin.2]
  exact ends_pure _

/-- The place of an entry is below the end of the table, which was checked. -/
theorem ends_rows {start : Nat} (h : start + (i + n) * e < Layout.limit) :
    Ends (Steps.rows l d start e n i) (Section.parseFrom l d e n (start + i * e)) := by
  induction n generalizing i with
  | zero => exact ends_pure _
  | succ n ih =>
    have hmul : i * e ≤ (i + (n + 1)) * e := Nat.mul_le_mul_right e (Nat.le_add_right ..)
    have hnext := ih (i := i + 1) (by rwa [Nat.add_assoc, Nat.add_comm 1 n])
    rw [Nat.succ_mul, ← Nat.add_assoc] at hnext
    refine ends_unchecked (by omega) (ends_unchecked (by omega) ?_)
    exact (ends_section l d _).bind fun s _ => hnext.bind fun rest _ => ends_pure _

theorem ends_table (l : Layout) (d : Data) (t : SectionTable) :
    Ends (Steps.table l d t) (Section.parseTable l d t) := by
  refine .ite (fun _ => ends_throw _) fun _ => ?_
  have hproduct : (checkedRange d "section header table" t.offset (t.entrySize * t.count) >>= fun r =>
        Section.parseFrom l d t.entrySize t.count r.1) =
      if Layout.limit ≤ t.entrySize * t.count then .error (.invalidOffset "section header table" t.offset)
      else checkedRange d "section header table" t.offset (t.entrySize * t.count) >>= fun r =>
        Section.parseFrom l d t.entrySize t.count r.1 := by
    split
    · next h => rw [checkedRange, if_pos (Nat.le_trans h (Nat.le_add_left ..))]; rfl
    · rfl
  rw [hproduct]
  refine ends_checked fun _ => (ends_range d _ _ _).bind fun r hr => ?_
  obtain ⟨hin, rfl⟩ := checkedRange_eq_ok_iff.1 hr
  have hrows : Ends (Steps.rows l d t.offset t.entrySize t.count 0)
      (Section.parseFrom l d t.entrySize t.count (t.offset + 0 * t.entrySize)) :=
    ends_rows (by rw [Nat.zero_add, Nat.mul_comm]; exact hin.1)
  rwa [Nat.zero_mul, Nat.add_zero] at hrows

/-! ## Symbols and strings -/

theorem ends_symbol (l : Layout) (d : Data) (o : Nat) : Ends (Steps.parseSymbol l d o) (Symbol.parse l d o) := by
  have hplaces : l.pick 12 4 ≤ l.symbolSize ∧ l.pick 13 5 ≤ l.symbolSize ∧ l.pick 14 6 ≤ l.symbolSize ∧
      l.pick 4 8 ≤ l.symbolSize ∧ l.pick 8 16 ≤ l.symbolSize := by rcases l with ⟨_ | _, _ | _⟩ <;> decide
  refine ends_checked fun hlimit => .ite (fun _ => ends_throw _) fun _ => ?_
  refine ends_unchecked (by omega) ((ends_number l d _ _).bind fun name _ => ?_)
  refine ends_unchecked (by omega) ((ends_number l d _ _).bind fun info _ => ?_)
  refine ends_unchecked (by omega) ((ends_number l d _ _).bind fun other _ => ?_)
  refine ends_unchecked (by omega) ((ends_number l d _ _).bind fun index _ => ?_)
  refine ends_unchecked (by omega) ((ends_word l d _).bind fun value _ => ?_)
  exact ends_unchecked (by omega) ((ends_word l d _).bind fun size _ => ends_pure _)

theorem toList_tail (d : Data) (o : Nat) : (d.extract o d.size).toList = d.toList.drop o := by
  rw [Array.toList_extract, List.extract_eq_take_drop, List.take_of_length_le (by simp)]

/-- The search from a place on is a search in what is left there. -/
theorem zeroFrom_eq (h : o + n = d.size) : zeroFrom d n o = ((d.toList.drop o).findIdx? (· == 0)).map (o + ·) := by
  induction n generalizing o with
  | zero =>
    rw [List.drop_eq_nil_of_le (by rw [Array.length_toList]; omega)]
    rfl
  | succ n ih =>
    have ho : o < d.toList.length := by rw [Array.length_toList]; omega
    have hfirst : d.getD o 1 = d.toList[o] := by
      rw [Array.getD_eq_getD_getElem?, Array.getElem?_eq_getElem ho]
      rfl
    rw [zeroFrom, ih (by omega), List.drop_eq_getElem_cons ho, List.findIdx?_cons, hfirst]
    by_cases hzero : d.toList[o] = 0
    · rw [if_pos hzero, if_pos (beq_iff_eq.2 hzero)]
      rfl
    · rw [if_neg hzero, if_neg (mt beq_iff_eq.1 hzero), Option.map_map]
      exact congrArg (Option.map · _) (funext fun k => by rw [Function.comp_apply, Nat.add_assoc, Nat.add_comm 1])

theorem ends_string (hsize : table.size < Layout.limit) (i : Nat) :
    Ends (Steps.string table i) (stringAt table i) := by
  unfold Steps.string stringAt
  by_cases hindex : table.size ≤ i
  · rw [if_pos hindex, Nat.sub_eq_zero_of_le hindex]
    exact ends_throw _
  · rw [if_neg hindex, zeroFrom_eq (by omega)]
    refine ends_slice (by omega) (Nat.le_refl _) ?_
    rw [toList_tail]
    cases hzero : (table.toList.drop i).findIdx? (· == 0) with
    | none => exact ends_throw _
    | some k =>
      have hk : k < table.size - i := by
        have hlt := (List.findIdx?_eq_some_iff_findIdx_eq.1 hzero).1
        simpa using hlt
      refine ends_unchecked (by omega) (ends_slice (Nat.le_add_right ..) (by omega) ?_)
      dsimp only [Option.map_some]
      cases Utf8.decode (table.extract i (i + k)).toList with
      | none => exact ends_throw _
      | some name => exact ends_pure _

/-! ## The scan -/

theorem ends_probe (d : Data) : Ends (Steps.probe d) (probe d) := by
  refine (ends_ident d).bind fun l _ => (ends_header l d).bind fun h _ => ?_
  exact .ite (fun _ => ends_pure _) fun _ => ends_throw _

theorem found_eq (f : Found) (names : Data) (i : Nat) (s : Section) :
    Steps.found f i s (stringAt names s.name) = f.add names i s := by
  unfold Steps.found Found.add
  cases stringAt names s.name <;> rfl

theorem ends_findAll (hsize : names.size < Layout.limit) (f : Found) :
    Ends (Steps.findAll names i ss f) (.ok (Found.addAll names i ss f)) := by
  induction ss generalizing i f with
  | nil => exact ends_pure _
  | cons s ss ih =>
    refine (ends_string hsize s.name).attempt.go_on ?_
    rw [found_eq]
    exact ih _

theorem size_le_of_contents {b : Data} (h : s.contents d = .ok b) : b.size ≤ d.size := by
  obtain ⟨-, rfl⟩ := contents_eq_ok_iff.1 h
  rw [Section.bytes, Array.size_extract]
  omega

theorem ends_locate (hsize : d.size < Layout.limit) (l : Layout) (h : Header) :
    Ends (Steps.locate d l h) (locate d l h) := by
  refine (ends_table l d h.table).bind fun sections _ => ?_
  cases sections[h.namesIndex]? with
  | none => exact ends_throw _
  | some s =>
    refine (ends_contents s d).bind fun names hnames => ?_
    have hle := size_le_of_contents hnames
    exact (ends_findAll (by omega) _).go_on (ends_answer _)

theorem ends_listed (hsize : strings.size < Layout.limit) (text : Nat) (s : Symbol) :
    Ends (Steps.listed strings text s) (.ok (listedName strings text s)) := by
  unfold Steps.listed listedName
  split
  · refine (ends_string hsize s.name).attempt.go_on ?_
    cases stringAt strings s.name with
    | error e => exact ends_pure _
    | ok name =>
      cases hname : name.isEmpty <;> simp [Except.toOption, Option.filter, hname, ends_pure]
  · exact ends_pure _

/-- The place of a symbol is below the size of the table. -/
theorem ends_list {text : Nat} (hsymbols : (i + n) * e < Layout.limit) (hstrings : strings.size < Layout.limit) :
    Ends (Steps.list l symbols strings text e n i) (.ok (listFrom l symbols strings text e n (i * e))) := by
  induction n generalizing i with
  | zero => exact ends_pure _
  | succ n ih =>
    have hmul : i * e ≤ (i + (n + 1)) * e := Nat.mul_le_mul_right e (Nat.le_add_right ..)
    have hnext := ih (i := i + 1) (by rwa [Nat.add_assoc, Nat.add_comm 1 n])
    rw [Nat.succ_mul] at hnext
    refine ends_unchecked (by omega) ((ends_symbol l symbols (i * e)).attempt.go_on ?_)
    rw [listFrom]
    cases Symbol.parse l symbols (i * e) with
    | error e => exact ends_pure _
    | ok s =>
      refine (ends_listed hstrings text s).go_on (hnext.go_on ?_)
      dsimp only
      cases listedName strings text s <;> exact ends_pure _

theorem ends_scan (hsize : d.size < Layout.limit) : Ends (Steps.scan d) (scan? d) := by
  refine (ends_probe d).bind fun r _ => (ends_locate hsize r.1 r.2).bind fun t _ => ?_
  refine (ends_contents t.symbols d).bind fun symbols hsymbols => ?_
  refine (ends_contents t.strings d).bind fun strings hstrings => ?_
  have hsymbols := size_le_of_contents hsymbols
  have hstrings := size_le_of_contents hstrings
  by_cases hentry : t.symbols.entrySize = 0
  · rw [if_pos hentry, hentry, Nat.div_zero]
    exact ends_pure _
  · have hle : symbols.size / t.symbols.entrySize * t.symbols.entrySize ≤ symbols.size := Nat.div_mul_le_self ..
    have hlist : Ends (Steps.list r.1 symbols strings t.text t.symbols.entrySize
      (symbols.size / t.symbols.entrySize) 0)
        (.ok (listFrom r.1 symbols strings t.text t.symbols.entrySize (symbols.size / t.symbols.entrySize)
          (0 * t.symbols.entrySize))) :=
      ends_list (by rw [Nat.zero_add]; omega) (by omega)
    rw [Nat.zero_mul] at hlist
    rw [if_neg hentry]
    exact ends_quotient hentry hlist

/-! ## When there is a value -/

theorem inside_iff (hd : d.size < Layout.limit) : Inside d o n ↔ o + n ≤ d.size :=
  ⟨And.right, fun h => ⟨Nat.lt_of_le_of_lt h hd, h⟩⟩

theorem little_lt (b : Bytes) : Bytes.little b < 256 ^ b.length := by
  induction b with
  | nil => simp [Bytes.little]
  | cons x b ih =>
    have hx := x.toNat_lt
    rw [Bytes.little, List.length_cons, Nat.pow_succ]
    omega

theorem value_lt (l : Layout) (b : Bytes) : l.value b < 256 ^ b.length := by
  unfold Layout.value
  cases l.encoding with
  | lsb => exact little_lt b
  | msb =>
    rw [Bytes.big, ← List.length_reverse]
    exact little_lt b.reverse

/-- What is read of `w` bytes is a number of `w` bytes. -/
theorem number_lt {k : Nat} (h : l.number d o w = .ok k) : k < 256 ^ w := by
  have hin := number_isOk_iff.1 ⟨k, h⟩
  have hle := hin.2
  have hlength : (d.extract o (o + w)).toList.length = w := by
    rw [Array.length_toList, Array.size_extract]
    omega
  rw [number_of_inside hin] at h
  cases h
  have hvalue := value_lt l (d.extract o (o + w)).toList
  rwa [hlength] at hvalue

theorem range_isOk_iff : (∃ r, checkedRange d what o n = .ok r) ↔ Inside d o n := by
  simp [checkedRange_eq_ok_iff]

theorem contents_isOk_iff : (∃ b, s.contents d = .ok b) ↔ Inside d s.offset s.size := by
  simp [contents_eq_ok_iff, Section.LiesIn]

/-- The last field of a section ends where the section ends. -/
theorem section_isOk_iff : (∃ s, Section.parse l d o = .ok s) ↔ Inside d o l.sectionSize := by
  constructor
  · rintro ⟨s, h⟩
    simp only [Section.parse, bind_eq_ok] at h
    obtain ⟨-, -, -, -, -, -, -, -, -, -, -, -, -, -, -, -, p, hp, k, hk, -⟩ := h
    have hplace : p = o + l.pick 36 56 := by
      unfold Section.place at hp
      split at hp
      · cases hp
      · exact (Except.ok.inj hp).symm
    have hend : l.pick 36 56 + l.wordSize = l.sectionSize := by rcases l with ⟨_ | _, _ | _⟩ <;> rfl
    rw [hplace] at hk
    have hin := number_isOk_iff.1 ⟨k, hk⟩
    rwa [Inside, Nat.add_assoc, hend] at hin
  · exact fun hin => ⟨_, parse_section_of_inside hin⟩

theorem table_isOk_iff {t : SectionTable} : (∃ ss, Section.parseTable l d t = .ok ss) ↔ t.LiesIn l d := by
  simp [parseTable_eq_ok_iff]

theorem symbol_isOk_iff : (∃ s, Symbol.parse l d o = .ok s) ↔ Inside d o l.symbolSize := by
  constructor
  · rintro ⟨s, h⟩
    unfold Symbol.parse at h
    split at h
    · cases h
    · next hlimit =>
      split at h
      · cases h
      · next hsize => exact ⟨Nat.not_le.1 hlimit, Nat.not_lt.1 hsize⟩
  · exact fun hin => ⟨_, parse_symbol_of_inside hin⟩

end

theorem Ends.safe {α : Type} {x : Steps α} {m : Except Error α} {p : Prop} (hx : Ends x m)
    (h : (∃ a, m = .ok a) ↔ p) :
    Safe x m p := by
  refine ⟨hx, h.2, fun hp => ?_⟩
  cases m with
  | error e => exact ⟨e, rfl⟩
  | ok a => exact absurd (h.1 ⟨a, rfl⟩) hp

/-- **No trap.**  Whatever a file says, no step of its reading leaves the 64 bits, divides by zero or slices
outside its data.  A number, a range, a section, a table or a symbol is read exactly if it lies in the data,
and else an error is reported; what is read of `w` bytes is a number of `w` bytes. -/
theorem reading_never_traps (d : Data) (hd : d.size < Word.half64) :
    (∀ l o w, Safe (Steps.number l d o w) (l.number d o w) (o + w ≤ d.size)) ∧
    (∀ (l : Layout) o w k, l.number d o w = .ok k → k < 256 ^ w) ∧
    (∀ l o, Safe (Steps.word l d o) (l.word d o) (o + l.wordSize ≤ d.size)) ∧
    (∀ what o n, Safe (Steps.range d what o n) (checkedRange d what o n) (o + n ≤ d.size)) ∧
    (∀ l o, Safe (Steps.parseSection l d o) (Section.parse l d o) (o + l.sectionSize ≤ d.size)) ∧
    (∀ s, Safe (Steps.contents s d) (s.contents d) (s.offset + s.size ≤ d.size)) ∧
    (∀ l t, Safe (Steps.table l d t) (Section.parseTable l d t)
      ((t.count = 0 ∨ l.sectionSize ≤ t.entrySize) ∧ t.offset + t.entrySize * t.count ≤ d.size)) ∧
    (∀ l o, Safe (Steps.parseSymbol l d o) (Symbol.parse l d o) (o + l.symbolSize ≤ d.size)) ∧
    (∀ i, Safe (Steps.string d i) (stringAt d i) (∃ name, Holds d i name)) ∧
    Ends (Steps.scan d) (scan? d) := by
  have hsize : d.size < Layout.limit := Nat.lt_trans hd (by decide)
  refine ⟨fun l o w => (ends_number l d o w).safe ?_, fun l o w k => number_lt, fun l o => (ends_word l d o).safe ?_,
    fun what o n => (ends_range d what o n).safe ?_, fun l o => (ends_section l d o).safe ?_,
    fun s => (ends_contents s d).safe ?_, fun l t => (ends_table l d t).safe ?_,
    fun l o => (ends_symbol l d o).safe ?_,
    fun i => (ends_string hsize i).safe ?_, ends_scan hsize⟩
  · rw [number_isOk_iff, inside_iff hsize]
  · rw [Layout.word, number_isOk_iff, inside_iff hsize]
  · rw [range_isOk_iff, inside_iff hsize]
  · rw [section_isOk_iff, inside_iff hsize]
  · rw [contents_isOk_iff, inside_iff hsize]
  · rw [table_isOk_iff, ← inside_iff hsize]
    exact ⟨fun h => ⟨h.room, h.inside⟩, fun h => ⟨h.1, h.2⟩⟩
  · rw [symbol_isOk_iff, inside_iff hsize]
  · simp only [stringAt_eq_ok_iff]

/-- A table of strings, the last of which does not end. -/
def openEnded : Data := #[0, 0x61, 0x62, 0, 0x63]

/-- Offsets at the end of the 64 bits, a string without an end, and bytes that are no object file. -/
theorem reading_never_traps_open_ended :
    openEnded.size < Word.half64 ∧
    Ends (Steps.number ⟨.elf64, .lsb⟩ openEnded (2 ^ 64 - 1) 2) (.error (.invalidOffset "field" (2 ^ 64 - 1))) ∧
    Ends (Steps.number ⟨.elf64, .msb⟩ openEnded 1 2) (.ok 0x6162) ∧
    Ends (Steps.contents ⟨0, .strtab, 2 ^ 64 - 4, 5, 0⟩ openEnded)
    (.error (.invalidOffset "section" (2 ^ 64 - 4))) ∧
    Ends (Steps.string openEnded 1) (.ok "ab") ∧
    Ends (Steps.string openEnded 4) (.error (.invalidStringIndex 4)) ∧
    Ends (Steps.scan openEnded) (.error (.bufferTooSmall 16 5)) := by
  have hd : openEnded.size < Word.half64 := by decide
  obtain ⟨hnumber, -, -, -, -, hcontents, -, -, hstring, hscan⟩ := reading_never_traps openEnded hd
  exact ⟨hd, (hnumber _ _ _).ends, (hnumber _ _ _).ends, (hcontents _).ends, (hstring _).ends,
    (hstring _).ends, hscan⟩

end Overseer.Elf
