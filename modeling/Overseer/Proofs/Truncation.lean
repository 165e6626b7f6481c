import Overseer.Proofs.Listing

/-!
# Cut files

A file that is cut short is not a smaller file with fewer functions: it is scanned as the whole file is,
or not at all.

    Firm f  =  what f reads of some bytes, it reads as well of these bytes with others behind them

Whatever a scan reads of the file lies in a range that was checked against the length of the file, so
its answer hangs on no byte behind that range.  Firm readings may follow one another, each at a place
that the ones before it gave.

Main statement: `scan_of_cut`.
-/

namespace Overseer.Elf

/-- What is read of the front of some bytes is read of all of them. -/
def Firm {α : Type} (f : Data → Except Error α) : Prop := ∀ front rest a, f front = .ok a →
    f (front ++ rest) = .ok a

section

variable {α β : Type} {f : Data → Except Error α} {g : α → Data → Except Error β} {d rest : Data}
  {l : Layout} {o w n : Nat}

/-! ## Firm readings -/

theorem firm_const (x : Except Error α) : Firm fun _ => x := fun _ _ _ h => h

theorem Firm.bind (hf : Firm f) (hg : ∀ a, Firm (g a)) : Firm fun d => f d >>= fun a => g a d := by
  intro front rest b h
  obtain ⟨a, ha, hb⟩ := bind_eq_ok.1 h
  exact bind_eq_ok.2 ⟨a, hf front rest a ha, hg a front rest b hb⟩

theorem Firm.map (hf : Firm f) (k : α → β) : Firm fun d => (f d).map k := by
  intro front rest b h
  obtain ⟨a, ha, hb⟩ := map_eq_ok.1 h
  exact map_eq_ok.2 ⟨a, hf front rest a ha, hb⟩

/-- Bytes that lie in the front are found there. -/
theorem extract_append (h : n ≤ d.size) : (d ++ rest).extract o n = d.extract o n := by
  rw [Array.extract_append, Nat.sub_eq_zero_of_le h]
  simp

theorem Inside.append (h : Inside d o n) : Inside (d ++ rest) o n := by
  refine ⟨h.1, ?_⟩
  rw [Array.size_append]
  exact Nat.le_add_right_of_le h.2

/-! ## Numbers and ranges -/

theorem firm_number (l : Layout) (o w : Nat) : Firm fun d => l.number d o w := by
  intro front rest x h
  have hin : Inside front o w := number_isOk_iff.1 ⟨x, h⟩
  have hsame : l.numberAt (front ++ rest) o w = l.numberAt front o w := by
    rw [Layout.numberAt, extract_append hin.2]
    rfl
  exact (number_of_inside hin.append).trans (hsame ▸ (number_of_inside hin).symm.trans h)

theorem firm_word (l : Layout) (o : Nat) : Firm fun d => l.word d o := firm_number l o l.wordSize

theorem firm_range (what : String) (o n : Nat) : Firm fun d => checkedRange d what o n := by
  intro front rest r h
  obtain ⟨hin, hr⟩ := checkedRange_eq_ok_iff.1 h
  exact checkedRange_eq_ok_iff.2 ⟨hin.append, hr⟩

theorem firm_contents (s : Section) : Firm s.contents := by
  intro front rest b h
  obtain ⟨hin, rfl⟩ := contents_eq_ok_iff.1 h
  exact contents_eq_ok_iff.2 ⟨hin.append, (extract_append hin.2).symm⟩

/-! ## Headers and sections -/

theorem firm_ofIdent : Firm Layout.ofIdent := by
  intro front rest l h
  obtain ⟨hsize, hmagic, hcls, hencoding⟩ := ofIdent_eq_ok_iff.1 h
  have hbyte : ∀ i < identSize, (front ++ rest).getD i 0 = front.getD i 0 := fun i hi => by
    rw [Array.getD_eq_getD_getElem?, Array.getD_eq_getD_getElem?,
      Array.getElem?_append_left (Nat.lt_of_lt_of_le hi hsize)]
  refine ofIdent_eq_ok_iff.2 ⟨?_, ?_, ?_, ?_⟩
  · rw [Array.size_append]
    exact Nat.le_add_right_of_le hsize
  · rw [extract_append (Nat.le_trans (by decide) hsize), hmagic]
  · rw [hbyte 4 (by decide), hcls]
  · rw [hbyte 5 (by decide), hencoding]

theorem firm_header (l : Layout) : Firm (Header.parse l) := by
  intro front rest h hh
  have hfields : Firm fun d => do
      let type ← l.number d 16 2
      let offset ← l.word d (l.pick 32 40)
      let entrySize ← l.number d (l.pick 46 58) 2
      let count ← l.number d (l.pick 48 60) 2
      let namesIndex ← l.number d (l.pick 50 62) 2
      return (⟨.ofCode type, ⟨offset, entrySize, count⟩, namesIndex⟩ : Header) :=
    (firm_number l _ _).bind fun _ => (firm_word l _).bind fun _ => (firm_number l _ _).bind fun _ =>
      (firm_number l _ _).bind fun _ => (firm_number l _ _).bind fun _ => firm_const _
  by_cases hsize : front.size < l.headerSize
  · rw [Header.parse, if_pos hsize] at hh
    cases hh
  · have hwhole : ¬ (front ++ rest).size < l.headerSize := by
      rw [Array.size_append]
      omega
    rw [Header.parse, if_neg hsize] at hh
    rw [Header.parse, if_neg hwhole]
    exact hfields front rest h hh

/-- A number is read at a place that may not exist. -/
theorem firm_field (l : Layout) (place : Except Error Nat) (w : Nat) {g : Nat → Data → Except Error β}
    (hg : ∀ x, Firm (g x)) : Firm fun d => place >>= fun o => l.number d o w >>= fun x => g x d :=
  (firm_const place).bind fun o => (firm_number l o w).bind hg

theorem firm_section (l : Layout) (o : Nat) : Firm fun d => Section.parse l d o := by
  refine firm_field l _ 4 fun name => firm_field l _ 4 fun kind => ?_
  refine firm_field l _ l.wordSize fun start => firm_field l _ l.wordSize fun size => ?_
  exact firm_field l _ l.wordSize fun entrySize => firm_const _

theorem firm_sections (l : Layout) (entrySize n o : Nat) : Firm fun d => Section.parseFrom l d entrySize n o := by
  induction n generalizing o with
  | zero => exact firm_const _
  | succ n ih => exact (firm_section l o).bind fun _ => (ih (o + entrySize)).bind fun _ => firm_const _

theorem firm_table (l : Layout) (t : SectionTable) : Firm fun d => Section.parseTable l d t := by
  unfold Section.parseTable
  split
  · exact firm_const _
  · exact (firm_range _ _ _).bind fun r => firm_sections l _ _ r.1

/-! ## The scan -/

theorem firm_probe : Firm probe := by
  refine firm_ofIdent.bind fun l => (firm_header l).bind fun h => ?_
  exact firm_const _

theorem firm_locate (l : Layout) (h : Header) : Firm fun d => locate d l h := by
  refine (firm_table l h.table).bind fun sections => ?_
  cases sections[h.namesIndex]? with
  | none => exact firm_const _
  | some s => exact (firm_contents s).bind fun names => firm_const _

theorem firm_scan? : Firm scan? := by
  refine firm_probe.bind fun r => ?_
  refine (firm_locate r.1 r.2).bind fun t => ?_
  exact (firm_contents t.symbols).bind fun symbols => (firm_contents t.strings).bind fun strings => firm_const _

end

/-- **Cutting fails closed.**  The front part of a file lists nothing, or what the whole file lists; where the
scan of some bytes succeeds, it gives the same answer whatever bytes follow. -/
theorem scan_of_cut (d : Data) :
    (∀ k, scan (d.extract 0 k) = [] ∨ scan (d.extract 0 k) = scan d) ∧
      ∀ names, scan? d = .ok names → ∀ rest, scan? (d ++ rest) = .ok names := by
  refine ⟨fun k => ?_, fun names h rest => firm_scan? d rest names h⟩
  have hsplit : d.extract 0 k ++ d.extract k d.size = d := by
    rw [Array.extract_append_extract, Nat.zero_min]
    exact Array.extract_eq_self_of_le (Nat.le_max_right k d.size)
  cases hfront : scan? (d.extract 0 k) with
  | error e =>
    left
    rw [scan, hfront]
    rfl
  | ok names =>
    right
    have hwhole : scan? d = .ok names := by
      have h := firm_scan? _ (d.extract k d.size) names hfront
      rwa [hsplit] at h
    rw [scan, scan, hfront, hwhole]

/-- A file with one function. -/
def single : List Declared := [⟨"prüfe", 0x12, .text⟩]

/-- The image of `single` lists its function with bytes behind it as well, and nothing without its last byte. -/
theorem scan_of_cut_single :
    scan? (image ⟨.elf32, .msb⟩ single).toArray = .ok ["prüfe"] ∧
    scan? ((image ⟨.elf32, .msb⟩ single).toArray ++ #[0x7F, 0x45]) = .ok ["prüfe"] ∧
    scan ((image ⟨.elf32, .msb⟩ single).toArray.pop) = [] := by
  have hfits : Fits ⟨.elf32, .msb⟩ single := ⟨by decide, by decide +kernel, by decide +kernel⟩
  have hwhole : scan? (image ⟨.elf32, .msb⟩ single).toArray = .ok ["prüfe"] := by
    refine (scan_succeeds hfits fun s hs => ?_).trans rfl
    rw [List.mem_singleton.1 hs]
    exact ⟨by decide, by decide⟩
  refine ⟨hwhole, (scan_of_cut _).2 _ hwhole _, ?_⟩
  decide +kernel

end Overseer.Elf
