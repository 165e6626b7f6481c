import Overseer.Proofs.Parsing
import Overseer.Proofs.Scanning

/-!
# What a scan lists

The answer of a scan, said of all bytes at once and without going through them.  A file either has the tables that
a scan needs, and then every symbol is judged by itself, or it lacks one of them.

    Locates d l t        =  d is a shared object of layout l, in which t are the tables of a scan
    Listed d l t i name  =  symbol i of t is a global function of the section .text, and name is its name
    InOrder p n names    =  names has, in increasing order, a name for each i < n that p gives one

A scan stops at the first symbol that does not lie in its table; the symbols behind it do not lie there either.

Main statement: `scan_spec`.
-/

namespace Overseer.Elf

/-! ## What makes a file one that can be scanned -/

/-- Where the entry of a section lies. -/
def rowOffset (l : Layout) (d : Data) (i : Nat) : Nat :=
  (headerAt l d).table.offset + (headerAt l d).table.entrySize * i

def nthSection (l : Layout) (d : Data) (i : Nat) : Section := sectionAt l d (rowOffset l d i)

/-- The code of the kind of a section. -/
def sectionCode (l : Layout) (d : Data) (i : Nat) : Nat := l.numberAt d (rowOffset l d i + 4) 4

/-- The section that holds the names of the sections. -/
def namesSection (l : Layout) (d : Data) : Section := nthSection l d (headerAt l d).namesIndex

/-- There is a section of this number, and it has this name. -/
def IsCalled (l : Layout) (d : Data) (name : String) (i : Nat) : Prop :=
  i < (headerAt l d).table.count ∧ Holds ((namesSection l d).bytes d) (nthSection l d i).name name

def First (p : Nat → Prop) (i : Nat) : Prop := p i ∧ ∀ j < i, ¬ p j

/-- The first section of a name with one of the codes is this one. -/
def FirstOf (l : Layout) (d : Data) (name : String) (codes : List Nat) (s : Section) : Prop :=
  ∃ i, First (fun j => IsCalled l d name j ∧ sectionCode l d j ∈ codes) i ∧ s = nthSection l d i

/-- The tables that a scan of a shared object needs, and that they lie in the file. -/
structure Locates (d : Data) (l : Layout) (t : Tables) : Prop where
  object : IsObject d l
  table : (headerAt l d).table.LiesIn l d
  namesIndex : (headerAt l d).namesIndex < (headerAt l d).table.count
  names : (namesSection l d).LiesIn d
  text : First (IsCalled l d ".text") t.text
  text_pos : 0 < t.text
  symbols : FirstOf l d ".dynsym" [2, 11] t.symbols
  strings : FirstOf l d ".dynstr" [3] t.strings
  symbolsInside : t.symbols.LiesIn d
  stringsInside : t.strings.LiesIn d
  entrySize : 0 < t.symbols.entrySize

/-! ## What makes a symbol one that is listed -/

def nthSymbol (d : Data) (l : Layout) (t : Tables) (i : Nat) : Symbol :=
  symbolAt l (t.symbols.bytes d) (i * t.symbols.entrySize)

/-- The entry lies in the table as a whole, is that of a global function of the section `.text`, and has a name. -/
structure Listed (d : Data) (l : Layout) (t : Tables) (i : Nat) (name : String) : Prop where
  inside : i * t.symbols.entrySize + l.symbolSize ≤ t.symbols.size
  kind : (nthSymbol d l t i).info % 16 = 2
  binding : (nthSymbol d l t i).info / 16 = 1
  sectionIndex : (nthSymbol d l t i).sectionIndex = t.text
  named : (nthSymbol d l t i).name ≠ 0
  held : Holds (t.strings.bytes d) (nthSymbol d l t i).name name
  filled : name ≠ ""

/-- A name for each of the numbers below `n` that have one, in the order of the numbers. -/
def InOrder (p : Nat → String → Prop) (n : Nat) (names : List String) : Prop :=
  ∃ indices : List Nat, indices.Pairwise (· < ·) ∧ (∀ i, i ∈ indices ↔ i < n ∧ ∃ name, p i name) ∧
    List.Forall₂ p indices names

section

variable {d names symbols strings : Data} {l : Layout} {h : Header} {t : Tables} {s : Section}
  {ss : List Section} {f : Found} {e i n o : Nat} {name : String} {p : Nat → String → Prop}

/-! ## Finding the tables -/

/-- Whether a section has a name, as a scan tests it. -/
def isNamed (names : Data) (name : String) (s : Section) : Bool := (stringAt names s.name).toOption == some name

theorem isNamed_iff : isNamed names name s = true ↔ Holds names s.name name := by
  rw [isNamed, beq_iff_eq, ← stringAt_eq_ok_iff]
  cases stringAt names s.name <;> simp [Except.toOption]

/-- One section more: each of the three is looked for by itself, since their names differ. -/
theorem add_eq : f.add names i s =
    ⟨f.symbols.or (if isNamed names ".dynsym" s && s.isSymbolTable then some s else none),
      f.strings.or (if isNamed names ".dynstr" s && s.isStringTable then some s else none),
      f.text.or (if isNamed names ".text" s then some i else none)⟩ := by
  obtain ⟨symbols, strings, text⟩ := f
  unfold Found.add isNamed
  cases hname : stringAt names s.name with
  | error e => simp [Except.toOption]
  | ok name =>
    by_cases hsymbols : name = ".dynsym"
    · subst hsymbols
      cases symbols <;> cases s.isSymbolTable <;> simp [Except.toOption]
    · by_cases hstrings : name = ".dynstr"
      · subst hstrings
        cases strings <;> cases s.isStringTable <;> simp [Except.toOption]
      · by_cases htext : name = ".text"
        · subst htext
          cases text <;> simp [Except.toOption]
        · simp [Except.toOption, hsymbols, hstrings, htext]

theorem addAll_eq : Found.addAll names i ss f =
    ⟨f.symbols.or (ss.find? fun s => isNamed names ".dynsym" s && s.isSymbolTable),
      f.strings.or (ss.find? fun s => isNamed names ".dynstr" s && s.isStringTable),
      f.text.or ((ss.findIdx? (isNamed names ".text")).map (i + ·))⟩ := by
  induction ss generalizing i f with
  | nil => simp [Found.addAll]
  | cons s ss ih =>
    rw [Found.addAll, ih, add_eq]
    dsimp only
    rw [List.find?_cons, List.find?_cons, List.findIdx?_cons, Option.or_assoc, Option.or_assoc, Option.or_assoc]
    congr 2
    · cases isNamed names ".dynsym" s && s.isSymbolTable <;> rfl
    · cases isNamed names ".dynstr" s && s.isStringTable <;> rfl
    · cases isNamed names ".text" s <;> simp [Function.comp_def, Nat.add_assoc, Nat.add_comm 1]

/-- The first row with a property is the one that a search through the rows finds. -/
theorem find?_range_map_iff {g : Nat → Section} {q : Section → Bool} {p : Nat → Prop}
    (hp : ∀ i, p i ↔ i < n ∧ q (g i) = true) :
    ((List.range n).map g).find? q = some s ↔ ∃ i, First p i ∧ s = g i := by
  rw [List.find?_map, Option.map_eq_some_iff]
  simp only [List.find?_range_eq_some, List.mem_range, Function.comp_apply, Bool.not_eq_true']
  constructor
  · rintro ⟨i, ⟨hq, hi, hbefore⟩, rfl⟩
    exact ⟨i, ⟨(hp i).2 ⟨hi, hq⟩, fun j hj hpj => Bool.false_ne_true
      ((hbefore j hj).symm.trans ((hp j).1 hpj).2)⟩, rfl⟩
  · rintro ⟨i, ⟨hpi, hbefore⟩, rfl⟩
    obtain ⟨hi, hq⟩ := (hp i).1 hpi
    exact ⟨i, ⟨hq, hi, fun j hj => Bool.eq_false_iff.2
      fun hqj => hbefore j hj ((hp j).2 ⟨by omega, hqj⟩)⟩, rfl⟩

theorem findIdx?_range_map_iff {g : Nat → Section} {q : Section → Bool} {p : Nat → Prop}
    (hp : ∀ i, p i ↔ i < n ∧ q (g i) = true) : ((List.range n).map g).findIdx? q = some i ↔ First p i := by
  rw [List.findIdx?_map, List.findIdx?_eq_some_iff_getElem]
  simp only [List.length_range, List.getElem_range, Function.comp_apply]
  constructor
  · rintro ⟨hi, hq, hbefore⟩
    exact ⟨(hp i).2 ⟨hi, hq⟩, fun j hj hpj => hbefore j hj ((hp j).1 hpj).2⟩
  · rintro ⟨hpi, hbefore⟩
    obtain ⟨hi, hq⟩ := (hp i).1 hpi
    exact ⟨hi, hq, fun j hj hqj => hbefore j hj ((hp j).2 ⟨by omega, hqj⟩)⟩

/-- A kind of the table has one code, and is read from it alone. -/
theorem ofCode_eq_iff {k c : Nat} {kind : SectionKind} (hmem : (c, kind) ∈ SectionKind.codes) :
    SectionKind.ofCode k = kind ↔ k = c := by
  have hback : ∀ r ∈ SectionKind.codes, SectionKind.ofCode r.1 = r.2 := by decide
  have hone : ∀ r ∈ SectionKind.codes, ∀ r' ∈ SectionKind.codes, r.2 = r'.2 → r.1 = r'.1 := by decide
  constructor
  · rintro rfl
    unfold SectionKind.ofCode at hmem
    split at hmem
    · next r hr =>
      have hk : r.1 = k := by simpa using List.find?_some hr
      exact (hone _ hmem r (List.mem_of_find?_eq_some hr) rfl).trans hk |>.symm
    · simp [SectionKind.codes] at hmem
  · rintro rfl
    exact hback _ hmem

theorem isSymbolTable_iff {k : Nat} (h : s.kind = .ofCode k) : s.isSymbolTable = true ↔ k ∈ [2, 11] := by
  rw [Section.isSymbolTable, h, Bool.or_eq_true, beq_iff_eq, beq_iff_eq, ofCode_eq_iff (c := 2) (by decide),
    ofCode_eq_iff (c := 11) (by decide)]
  simp

theorem isStringTable_iff {k : Nat} (h : s.kind = .ofCode k) : s.isStringTable = true ↔ k ∈ [3] := by
  rw [Section.isStringTable, h, beq_iff_eq, ofCode_eq_iff (c := 3) (by decide), List.mem_singleton]

theorem tables_eq_ok_iff : f.tables = .ok t ↔ f = ⟨some t.symbols, some t.strings, some t.text⟩ ∧
    0 < t.text := by
  obtain ⟨symbols, strings, text⟩ := f
  obtain ⟨symbols', strings', text'⟩ := t
  unfold Found.tables
  rcases text with _ | _ | text
  · simp
  · simp
    omega
  · cases symbols <;> cases strings <;> simp
    omega

/-- The sections of a file, in their order. -/
def allSections (l : Layout) (d : Data) : List Section :=
  (List.range (headerAt l d).table.count).map (nthSection l d)

theorem found_iff : (Found.addAll ((namesSection l d).bytes d) 0 (allSections l d)
    ⟨none, none, none⟩).tables = .ok t ↔
    First (IsCalled l d ".text") t.text ∧ 0 < t.text ∧
      FirstOf l d ".dynsym" [2, 11] t.symbols ∧ FirstOf l d ".dynstr" [3] t.strings := by
  have hcalled : ∀ name i, IsCalled l d name i ↔
      i < (headerAt l d).table.count ∧ isNamed ((namesSection l d).bytes d) name (nthSection l d i) = true :=
    fun name i => and_congr_right fun _ => isNamed_iff.symm
  have htyped : ∀ name (codes : List Nat) (q : Section → Bool),
      (∀ i, q (nthSection l d i) = true ↔ sectionCode l d i ∈ codes) →
      ∀ i, IsCalled l d name i ∧ sectionCode l d i ∈ codes ↔ i < (headerAt l d).table.count ∧
        (isNamed ((namesSection l d).bytes d) name (nthSection l d i) && q (nthSection l d i)) = true :=
    fun name codes q hq i => by rw [hcalled, Bool.and_eq_true, hq, and_assoc]
  rw [tables_eq_ok_iff, addAll_eq, Found.mk.injEq, Option.none_or, Option.none_or, Option.none_or, allSections,
    find?_range_map_iff (htyped ".dynsym" _ _ fun i => isSymbolTable_iff rfl),
    find?_range_map_iff (htyped ".dynstr" _ _ fun i => isStringTable_iff rfl)]
  simp only [Nat.zero_add, Option.map_id']
  rw [findIdx?_range_map_iff (hcalled ".text")]
  exact ⟨fun ⟨⟨h1, h2, h3⟩, h4⟩ => ⟨h3, h4, h1, h2⟩,
    fun ⟨h3, h4, h1, h2⟩ => ⟨⟨h1, h2, h3⟩, h4⟩⟩

theorem parseTable_iff : Section.parseTable l d (headerAt l d).table = .ok ss ↔
    (headerAt l d).table.LiesIn l d ∧ ss = allSections l d :=
  parseTable_eq_ok_iff

theorem getElem?_allSections : (allSections l d)[i]? =
    if i < (headerAt l d).table.count then some (nthSection l d i) else none := by
  rw [allSections, List.getElem?_map]
  split
  · next hi => rw [List.getElem?_range hi]; rfl
  · next hi => rw [List.getElem?_eq_none (by rwa [List.length_range, ← Nat.not_lt])]; rfl

theorem locate_eq_ok_iff : locate d l (headerAt l d) = .ok t ↔
    (headerAt l d).table.LiesIn l d ∧ (headerAt l d).namesIndex < (headerAt l d).table.count ∧
    (namesSection l d).LiesIn d ∧ First (IsCalled l d ".text") t.text ∧ 0 < t.text ∧
    FirstOf l d ".dynsym" [2, 11] t.symbols ∧ FirstOf l d ".dynstr" [3] t.strings := by
  unfold locate
  constructor
  · intro h
    obtain ⟨ss, hss, h⟩ := bind_eq_ok.1 h
    obtain ⟨htable, rfl⟩ := parseTable_iff.1 hss
    rw [getElem?_allSections] at h
    by_cases hindex : (headerAt l d).namesIndex < (headerAt l d).table.count
    · rw [if_pos hindex] at h
      obtain ⟨names, hnames, h⟩ := bind_eq_ok.1 h
      obtain ⟨hlies, rfl⟩ := contents_eq_ok_iff.1 hnames
      exact ⟨htable, hindex, hlies, found_iff.1 h⟩
    · rw [if_neg hindex] at h
      cases h
  · rintro ⟨htable, hindex, hnames, hfound⟩
    refine bind_eq_ok.2 ⟨_, parseTable_iff.2 ⟨htable, rfl⟩, ?_⟩
    rw [getElem?_allSections, if_pos hindex]
    exact bind_eq_ok.2 ⟨_, contents_eq_ok_iff.2 ⟨hnames, rfl⟩, found_iff.2 hfound⟩

/-! ## Going through the symbols -/

/-- The name that a symbol is listed with, if any. -/
def nameAt (l : Layout) (symbols strings : Data) (text o : Nat) : Option String :=
  if o + l.symbolSize ≤ symbols.size then listedName strings text (symbolAt l symbols o) else none

/-- A scan lists what each symbol gives by itself: behind one that lies outside, all lie outside. -/
theorem listFrom_eq {text : Nat} (hsize : symbols.size < Layout.limit) : listFrom l symbols strings text e n o =
    (List.range n).filterMap fun i => nameAt l symbols strings text (o + i * e) := by
  induction n generalizing o with
  | zero => rfl
  | succ n ih =>
    have hshift : ∀ i, o + (i + 1) * e = o + e + i * e := fun i => by rw [Nat.succ_mul]; omega
    rw [listFrom]
    by_cases hin : o + l.symbolSize ≤ symbols.size
    · rw [parse_symbol_of_inside ⟨by omega, hin⟩, List.range_succ_eq_map, List.filterMap_cons, List.filterMap_map]
      have hfirst : nameAt l symbols strings text (o + 0 * e) = listedName strings text (symbolAt l symbols o) := by
        rw [Nat.zero_mul, Nat.add_zero, nameAt, if_pos hin]
      simp only [Function.comp_def, hshift, hfirst, ih]
      cases listedName strings text (symbolAt l symbols o) <;> rfl
    · obtain ⟨err, herr⟩ := parse_symbol_eq_error (Nat.not_le.1 hin)
      have hnone : ∀ i, nameAt l symbols strings text (o + i * e) = none := fun i => by
        rw [nameAt, if_neg (by omega)]
      rw [herr, List.filterMap_congr (g := fun _ => none) fun i _ => hnone i]
      simp

theorem listedName_eq_some_iff {sym : Symbol} {text : Nat} : listedName strings text sym = some name ↔
    (sym.info % 16 = 2 ∧ sym.info / 16 = 1 ∧ sym.sectionIndex = text ∧ sym.name ≠ 0) ∧
    Holds strings sym.name name ∧
      name ≠ "" := by
  have htests : (sym.isFunction && sym.isGlobal && sym.sectionIndex == text && sym.name != 0) = true ↔
      sym.info % 16 = 2 ∧ sym.info / 16 = 1 ∧ sym.sectionIndex = text ∧ sym.name ≠ 0 := by
    simp only [isFunction_eq, isGlobal_eq, Bool.and_eq_true, decide_eq_true_iff, beq_iff_eq, bne_iff_ne, and_assoc]
  rw [← htests, ← stringAt_eq_ok_iff]
  unfold listedName
  split
  · next h =>
    rw [and_iff_right h]
    cases stringAt strings sym.name with
    | error e => simp
    | ok s =>
      by_cases hs : s = ""
      · simp [hs]
      · have hfilled : s = name → name ≠ "" := fun h => h ▸ hs
        simpa [hs] using hfilled
  · next h => simp [h]

theorem size_bytes (h : s.LiesIn d) : (s.bytes d).size = s.size := by
  have hle := h.2
  rw [Section.bytes, Array.size_extract]
  omega

theorem nameAt_eq_some_iff (h : t.symbols.LiesIn d) :
    nameAt l (t.symbols.bytes d) (t.strings.bytes d) t.text (i * t.symbols.entrySize) = some name ↔
      Listed d l t i name := by
  rw [nameAt, size_bytes h]
  constructor
  · intro hname
    split at hname
    · next hin =>
      obtain ⟨⟨hkind, hbinding, hindex, hnamed⟩, hheld, hfilled⟩ := listedName_eq_some_iff.1 hname
      exact ⟨hin, hkind, hbinding, hindex, hnamed, hheld, hfilled⟩
    · cases hname
  · rintro ⟨hin, hkind, hbinding, hindex, hnamed, hheld, hfilled⟩
    rw [if_pos hin]
    exact listedName_eq_some_iff.2 ⟨⟨hkind, hbinding, hindex, hnamed⟩, hheld, hfilled⟩

theorem forall₂_filterMap {g : Nat → Option String} (hg : ∀ i name, g i = some name → p i name)
    (is : List Nat) :
    List.Forall₂ p (is.filter fun i => (g i).isSome) (is.filterMap g) := by
  induction is with
  | nil => exact .nil
  | cons i is ih =>
    cases hi : g i with
    | none => simpa [hi] using ih
    | some name => simpa [hi] using List.Forall₂.cons (hg i name hi) ih

theorem inOrder_filterMap {g : Nat → Option String} (hg : ∀ i name, g i = some name ↔ p i name) :
    InOrder p n ((List.range n).filterMap g) := by
  refine ⟨(List.range n).filter fun i => (g i).isSome, List.Pairwise.filter _ List.pairwise_lt_range, fun i => ?_,
    forall₂_filterMap (fun i name => (hg i name).1) _⟩
  rw [List.mem_filter, List.mem_range, Option.isSome_iff_exists]
  simp only [hg]

/-! ## Main theorem -/

/-- The steps of a scan find the tables of a file that has them, and only then go on. -/
theorem locates_iff : Locates d l t ↔ probe d = .ok (l, headerAt l d) ∧ locate d l (headerAt l d) = .ok t ∧
    t.symbols.LiesIn d ∧ t.strings.LiesIn d ∧ 0 < t.symbols.entrySize := by
  rw [probe_eq_ok_iff, locate_eq_ok_iff]
  constructor
  · intro h
    exact ⟨⟨h.object, rfl⟩, ⟨h.table, h.namesIndex, h.names, h.text, h.text_pos, h.symbols, h.strings⟩,
      h.symbolsInside, h.stringsInside, h.entrySize⟩
  · rintro ⟨⟨hobject, -⟩, ⟨htable, hindex, hnames, htext, hpos, hsymbols, hstrings⟩, hin, hin', hentry⟩
    exact ⟨hobject, htable, hindex, hnames, htext, hpos, hsymbols, hstrings, hin, hin', hentry⟩

theorem scan?_eq_ok_iff {answer : List String} : scan? d = .ok answer ↔ ∃ l t, probe d = .ok (l, headerAt l d) ∧
    locate d l (headerAt l d) = .ok t ∧ t.symbols.LiesIn d ∧ t.strings.LiesIn d ∧
    answer = listFrom l (t.symbols.bytes d) (t.strings.bytes d) t.text t.symbols.entrySize
      (t.symbols.size / t.symbols.entrySize) 0 := by
  unfold scan?
  constructor
  · intro h
    obtain ⟨⟨l, header⟩, hprobe, h⟩ := bind_eq_ok.1 h
    obtain ⟨-, rfl⟩ := probe_eq_ok_iff.1 hprobe
    obtain ⟨t, hlocate, h⟩ := bind_eq_ok.1 h
    obtain ⟨symbols, hsymbols, h⟩ := bind_eq_ok.1 h
    obtain ⟨strings, hstrings, h⟩ := bind_eq_ok.1 h
    obtain ⟨hin, rfl⟩ := contents_eq_ok_iff.1 hsymbols
    obtain ⟨hin', rfl⟩ := contents_eq_ok_iff.1 hstrings
    cases h
    exact ⟨l, t, hprobe, hlocate, hin, hin', by rw [size_bytes hin]⟩
  · rintro ⟨l, t, hprobe, hlocate, hin, hin', rfl⟩
    refine bind_eq_ok.2 ⟨_, hprobe, bind_eq_ok.2 ⟨t, hlocate, ?_⟩⟩
    refine bind_eq_ok.2 ⟨_, contents_eq_ok_iff.2 ⟨hin, rfl⟩,
      bind_eq_ok.2 ⟨_, contents_eq_ok_iff.2 ⟨hin', rfl⟩, ?_⟩⟩
    rw [size_bytes hin]
    rfl

/-- The answer of a scan on any bytes: the names of all symbols that are listed, in the order of the symbols, when the
file has the tables, and nothing when it lacks one of them. -/
theorem scan_spec (d : Data) :
    (∀ l t, Locates d l t → InOrder (Listed d l t) (t.symbols.size / t.symbols.entrySize) (scan d)) ∧
    ((∀ l t, ¬ Locates d l t) → scan d = []) := by
  constructor
  · intro l t h
    obtain ⟨hprobe, hlocate, hin, hin', -⟩ := locates_iff.1 h
    have hlimit : (t.symbols.bytes d).size < Layout.limit := by
      have hlt := hin.1
      rw [size_bytes hin]
      omega
    rw [scan, scan?_eq_ok_iff.2 ⟨l, t, hprobe, hlocate, hin, hin', rfl⟩, listFrom_eq hlimit]
    simp only [Nat.zero_add]
    exact inOrder_filterMap fun i name => nameAt_eq_some_iff hin
  · intro hnone
    rw [scan]
    cases hscan : scan? d with
    | error e => rfl
    | ok answer =>
      obtain ⟨l, t, hprobe, hlocate, hin, hin', rfl⟩ := scan?_eq_ok_iff.1 hscan
      have hentry : t.symbols.entrySize = 0 := by
        by_contra hne
        exact hnone l t (locates_iff.2 ⟨hprobe, hlocate, hin, hin', Nat.pos_of_ne_zero hne⟩)
      rw [hentry, Nat.div_zero]
      rfl

end

/-- An image of `mixed` whose table of symbols is said to have entries of eight bytes, half of what one takes up: the
entries overlap, and the last one ends behind the table. -/
def narrow : Data :=
  ((image ⟨.elf32, .msb⟩ mixed).set (tableOffset ⟨.elf32, .msb⟩ mixed + 3 * 40 + 39) 8).toArray

def narrowTables : Tables := ⟨⟨13, .dynsym, 104, 112, 8⟩, ⟨21, .strtab, 216, 38, 0⟩, 1⟩

theorem scan_of_narrow :
    Locates narrow ⟨.elf32, .msb⟩ narrowTables ∧
    InOrder (Listed narrow ⟨.elf32, .msb⟩ narrowTables) 14 (scan narrow) ∧
    scan narrow = ["check", "prüfe", "check"] ∧
    (∀ l t, ¬ Locates #[] l t) ∧ scan #[] = [] := by
  have hlocates : Locates narrow ⟨.elf32, .msb⟩ narrowTables := locates_iff.2
    ⟨by decide +kernel, by decide +kernel, ⟨by decide +kernel, by decide +kernel⟩,
      ⟨by decide +kernel, by decide +kernel⟩,
      by decide⟩
  have hanswer : scan narrow = ["check", "prüfe", "check"] := by
    obtain ⟨hprobe, hlocate, hin, hin', -⟩ := locates_iff.1 hlocates
    rw [scan, scan?_eq_ok_iff.2 ⟨_, _, hprobe, hlocate, hin, hin', rfl⟩]
    decide +kernel
  have hempty : ∀ l t, ¬ Locates #[] l t := fun l t h => by
    have hle := h.object.header
    rcases l with ⟨_ | _, _ | _⟩ <;> exact absurd hle (by decide)
  exact ⟨hlocates, (scan_spec narrow).1 _ _ hlocates, hanswer, hempty, (scan_spec #[]).2 hempty⟩

end Overseer.Elf
