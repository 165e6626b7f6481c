import Mathlib.Data.Nat.Basic
import Mathlib.Tactic.SplitIfs
import Overseer.Text.Utf8

/-!
# UTF-8 there and back

Reading what has been written gives the text back, and nothing else can be read.  The first byte of a
character tells how many bytes are owed, and the range in which the next one lies; the ranges after E0,
ED, F0 and F4 are smaller, and a character that is not a surrogate, written in its shortest form, lies
in them.

    decode b = some s  ↔  b = encode s          decodeLossy (encode s) = s
    0 ∈ encode s  ↔  NUL ∈ s

Main statements: `decode_encode`, `decode_eq_some_iff`, `zero_mem_encode`.
-/

namespace Overseer.Text.Utf8

variable {a m n : Nat}

theorem toNat_toUInt8 (h : n < 256) : n.toUInt8.toNat = n := by
  simp [Nat.mod_eq_of_lt h]

/-! ## The first byte -/

theorem opening_one (h : n < 0x80) : opening n = .char (Char.ofNat n) := by
  unfold opening
  rw [if_pos h]

theorem opening_two (h : 2 ≤ a) (h' : a < 32) : opening (0xC0 + a) = .more ⟨1, 0x80, 0xBF, a⟩ := by
  unfold opening
  rw [if_neg (by omega), if_neg (by omega), if_pos (by omega), Nat.add_sub_cancel_left]

/-- The next byte `0x80 + m` is in the range that the first byte leaves to it. -/
theorem opening_three (ha : a < 16) (hm : m < 64) (hlong : 32 ≤ a * 64 + m) (hsurrogate : a = 13 → m < 32) :
    ∃ low high, opening (0xE0 + a) = .more ⟨2, low, high, a⟩ ∧ low ≤ 0x80 + m ∧ 0x80 + m ≤ high := by
  unfold opening
  rw [if_neg (by omega), if_neg (by omega), if_neg (by omega)]
  by_cases h0 : a = 0
  · subst h0
    exact ⟨0xA0, 0xBF, rfl, by omega, by omega⟩
  · rw [if_neg (by omega)]
    by_cases h13 : a = 13
    · subst h13
      exact ⟨0x80, 0x9F, rfl, by omega, by have := hsurrogate rfl; omega⟩
    · rw [if_neg (by omega), if_pos (by omega), Nat.add_sub_cancel_left]
      exact ⟨0x80, 0xBF, rfl, by omega, by omega⟩

theorem opening_four (ha : a < 5) (hm : m < 64) (hlong : 16 ≤ a * 64 + m) (hlast : a = 4 → m < 16) :
    ∃ low high, opening (0xF0 + a) = .more ⟨3, low, high, a⟩ ∧ low ≤ 0x80 + m ∧ 0x80 + m ≤ high := by
  unfold opening
  rw [if_neg (by omega), if_neg (by omega), if_neg (by omega), if_neg (by omega), if_neg (by omega),
    if_neg (by omega)]
  by_cases h0 : a = 0
  · subst h0
    exact ⟨0x90, 0xBF, rfl, by omega, by omega⟩
  · rw [if_neg (by omega)]
    by_cases h4 : a = 4
    · subst h4
      exact ⟨0x80, 0x8F, rfl, by omega, by have := hlast rfl; omega⟩
    · rw [if_pos (by omega), Nat.add_sub_cancel_left]
      exact ⟨0x80, 0xBF, rfl, by omega, by omega⟩

/-! ## The other bytes -/

theorem continuing_more {p : Pending} (hm : m < 64) (hlow : p.low ≤ 0x80 + m) (hhigh : 0x80 + m ≤ p.high)
    (ho : 1 < p.owed) :
    continuing p (0x80 + m) = .more ⟨p.owed - 1, 0x80, 0xBF, p.bits * 64 + m⟩ := by
  have hbits : (0x80 + m) % 64 = m := by omega
  unfold continuing
  rw [if_pos ⟨hlow, hhigh⟩, hbits]
  dsimp only
  rw [if_neg (by omega)]

theorem continuing_char {p : Pending} (hm : m < 64) (hlow : p.low ≤ 0x80 + m) (hhigh : 0x80 + m ≤ p.high)
    (ho : p.owed ≤ 1) :
    continuing p (0x80 + m) = .char (Char.ofNat (p.bits * 64 + m)) := by
  have hbits : (0x80 + m) % 64 = m := by omega
  unfold continuing
  rw [if_pos ⟨hlow, hhigh⟩, hbits]
  dsimp only
  rw [if_pos ho]

/-- The last byte that is owed. -/
theorem decodeFrom_last (acc : List Char) (r : Bytes) (hm : m < 64) :
    decodeFrom (some ⟨1, 0x80, 0xBF, a⟩) acc ((0x80 + m).toUInt8 :: r) =
      decodeFrom none (Char.ofNat (a * 64 + m) :: acc) r := by
  rw [decodeFrom, toNat_toUInt8 (by omega), advance, continuing_char hm (by simp) (by simp; omega) (by simp)]

/-- The last but one. -/
theorem decodeFrom_two (acc : List Char) (r : Bytes) {low high m' : Nat} (hm : m < 64) (hlow : low ≤ 0x80 + m)
    (hhigh : 0x80 + m ≤ high) (hm' : m' < 64) :
    decodeFrom (some ⟨2, low, high, a⟩) acc ((0x80 + m).toUInt8 :: (0x80 + m').toUInt8 :: r) =
      decodeFrom none (Char.ofNat ((a * 64 + m) * 64 + m') :: acc) r := by
  rw [decodeFrom, toNat_toUInt8 (by omega), advance, continuing_more hm hlow hhigh (by simp)]
  exact decodeFrom_last acc r hm'

theorem decodeFrom_three (acc : List Char) (r : Bytes) {low high m' m'' : Nat} (hm : m < 64) (hlow : low ≤ 0x80 + m)
    (hhigh : 0x80 + m ≤ high) (hm' : m' < 64) (hm'' : m'' < 64) :
    decodeFrom (some ⟨3, low, high, a⟩) acc
    ((0x80 + m).toUInt8 :: (0x80 + m').toUInt8 :: (0x80 + m'').toUInt8 :: r) =
      decodeFrom none (Char.ofNat (((a * 64 + m) * 64 + m') * 64 + m'') :: acc) r := by
  rw [decodeFrom, toNat_toUInt8 (by omega), advance, continuing_more hm hlow hhigh (by simp)]
  exact decodeFrom_two acc r hm' (by omega) (by omega) hm''

/-! ## Main theorems -/

/-- A number of a character is no surrogate and not above the last character. -/
theorem valid_toNat (c : Char) : c.toNat < 0xD800 ∨ 0xDFFF < c.toNat ∧ c.toNat < 0x110000 := c.valid

theorem decodeFrom_encodeChar (c : Char) (acc : List Char) (r : Bytes) :
    decodeFrom none acc (encodeChar c ++ r) = decodeFrom none (c :: acc) r := by
  have hvalid := valid_toNat c
  have hback : Char.ofNat c.toNat = c := Char.ofNat_toNat c
  unfold encodeChar
  dsimp only
  generalize c.toNat = n at hvalid hback
  -- one case for each length; what the bytes keep of the number makes it up again
  split
  · next h1 =>
    rw [List.singleton_append, decodeFrom, toNat_toUInt8 (by omega), advance, opening_one h1, hback]
  · split
    · next h1 h2 =>
      have hbits : n / 64 * 64 + n % 64 = n := by omega
      simp only [List.cons_append, List.nil_append]
      rw [decodeFrom, toNat_toUInt8 (by omega), advance, opening_two (by omega) (by omega)]
      dsimp only
      rw [decodeFrom_last acc r (by omega), hbits, hback]
    · split
      · next h1 h2 h3 =>
        have hbits : (n / 4096 * 64 + n / 64 % 64) * 64 + n % 64 = n := by omega
        obtain ⟨low, high, hopen, hlow, hhigh⟩ :=
          opening_three (a := n / 4096) (m := n / 64 % 64) (by omega) (by omega) (by omega) (by omega)
        simp only [List.cons_append, List.nil_append]
        rw [decodeFrom, toNat_toUInt8 (by omega), advance, hopen]
        dsimp only
        rw [decodeFrom_two acc r (by omega) hlow hhigh (by omega), hbits, hback]
      · next h1 h2 h3 =>
        have hbits : ((n / 262144 * 64 + n / 4096 % 64) * 64 + n / 64 % 64) * 64 + n % 64 = n := by omega
        obtain ⟨low, high, hopen, hlow, hhigh⟩ :=
          opening_four (a := n / 262144) (m := n / 4096 % 64) (by omega) (by omega) (by omega) (by omega)
        simp only [List.cons_append, List.nil_append]
        rw [decodeFrom, toNat_toUInt8 (by omega), advance, hopen]
        dsimp only
        rw [decodeFrom_three acc r (by omega) hlow hhigh (by omega) (by omega), hbits, hback]

theorem decodeFrom_encodeChars (s acc : List Char) :
    decodeFrom none acc (encodeChars s) = some (acc.reverse ++ s) := by
  induction s generalizing acc with
  | nil => simp [encodeChars, decodeFrom]
  | cons c s ih =>
    have hcons : encodeChars (c :: s) = encodeChar c ++ encodeChars s := rfl
    rw [hcons, decodeFrom_encodeChar, ih]
    simp

/-- Reading back what has been written. -/
theorem decode_encode (s : String) : decode (encode s) = some s := by
  rw [decode, encode, decodeFrom_encodeChars]
  simp

theorem zero_eq_toUInt8 (h : n < 256) : 0 = n.toUInt8 ↔ n = 0 := by
  rw [← UInt8.toNat_inj, toNat_toUInt8 h]
  exact eq_comm

/-- Only the character NUL is written with a zero byte. -/
theorem zero_mem_encodeChar (c : Char) : 0 ∈ encodeChar c ↔ c.toNat = 0 := by
  have hvalid := valid_toNat c
  unfold encodeChar
  dsimp only
  generalize c.toNat = n at hvalid
  split
  · next h1 => rw [List.mem_singleton, zero_eq_toUInt8 (by omega)]
  · split
    · next h1 h2 =>
      rw [List.mem_cons, List.mem_singleton, zero_eq_toUInt8 (by omega), zero_eq_toUInt8 (by omega)]
      omega
    · split
      · next h1 h2 h3 =>
        rw [List.mem_cons, List.mem_cons, List.mem_singleton, zero_eq_toUInt8 (by omega), zero_eq_toUInt8 (by omega),
          zero_eq_toUInt8 (by omega)]
        omega
      · next h1 h2 h3 =>
        rw [List.mem_cons, List.mem_cons, List.mem_cons, List.mem_singleton, zero_eq_toUInt8 (by omega),
          zero_eq_toUInt8 (by omega), zero_eq_toUInt8 (by omega), zero_eq_toUInt8 (by omega)]
        omega

theorem zero_mem_encode (s : String) : 0 ∈ encode s ↔ '\x00' ∈ s.toList := by
  have hnul : ∀ c : Char, c.toNat = 0 ↔ c = '\x00' := by
    intro c
    constructor
    · intro h
      rw [← Char.ofNat_toNat c, h]
    · rintro rfl
      rfl
  simp [encode, encodeChars, List.mem_flatMap, zero_mem_encodeChar, hnul]

/-! ## What is read is what was written -/

section

variable {acc t : List Char} {s : Bytes} {low high : Nat} {b b₁ b₂ b₃ : UInt8}

/-- The byte that is owed lies in its range and completes the character. -/
theorem decodeFrom_owing_one (h : decodeFrom (some ⟨1, low, high, a⟩) acc s = some t) :
    ∃ b r, s = b :: r ∧ low ≤ b.toNat ∧ b.toNat ≤ high ∧
      decodeFrom none (Char.ofNat (a * 64 + b.toNat % 64) :: acc) r = some t := by
  cases s with
  | nil => simp [decodeFrom] at h
  | cons b r =>
    rw [decodeFrom, advance, continuing] at h
    by_cases hb : low ≤ b.toNat ∧ b.toNat ≤ high
    · rw [if_pos hb] at h
      exact ⟨b, r, rfl, hb.1, hb.2, h⟩
    · simp [hb] at h

theorem decodeFrom_owing_two (h : decodeFrom (some ⟨2, low, high, a⟩) acc s = some t) :
    ∃ b b₁ r, s = b :: b₁ :: r ∧ low ≤ b.toNat ∧ b.toNat ≤ high ∧ 0x80 ≤ b₁.toNat ∧
    b₁.toNat ≤ 0xBF ∧
      decodeFrom none (Char.ofNat ((a * 64 + b.toNat % 64) * 64 + b₁.toNat % 64) :: acc) r = some t := by
  cases s with
  | nil => simp [decodeFrom] at h
  | cons b r =>
    rw [decodeFrom, advance, continuing] at h
    by_cases hb : low ≤ b.toNat ∧ b.toNat ≤ high
    · rw [if_pos hb] at h
      obtain ⟨b₁, r', rfl, hlow, hhigh, hrest⟩ := decodeFrom_owing_one h
      exact ⟨b, b₁, r', rfl, hb.1, hb.2, hlow, hhigh, hrest⟩
    · simp [hb] at h

theorem decodeFrom_owing_three (h : decodeFrom (some ⟨3, low, high, a⟩) acc s = some t) :
    ∃ b b₁ b₂ r, s = b :: b₁ :: b₂ :: r ∧ low ≤ b.toNat ∧ b.toNat ≤ high ∧ 0x80 ≤ b₁.toNat ∧
    b₁.toNat ≤ 0xBF ∧
      0x80 ≤ b₂.toNat ∧ b₂.toNat ≤ 0xBF ∧
      decodeFrom none
        (Char.ofNat (((a * 64 + b.toNat % 64) * 64 + b₁.toNat % 64) * 64 + b₂.toNat % 64) :: acc) r = some t := by
  cases s with
  | nil => simp [decodeFrom] at h
  | cons b r =>
    rw [decodeFrom, advance, continuing] at h
    by_cases hb : low ≤ b.toNat ∧ b.toNat ≤ high
    · rw [if_pos hb] at h
      obtain ⟨b₁, b₂, r', rfl, hlow₁, hhigh₁, hlow₂, hhigh₂, hrest⟩ := decodeFrom_owing_two h
      exact ⟨b, b₁, b₂, r', rfl, hb.1, hb.2, hlow₁, hhigh₁, hlow₂, hhigh₂, hrest⟩
    · simp [hb] at h

/-- What the first byte of a character leaves to the next one: the shortest form, and no surrogate. -/
inductive Opens : Nat → Pending → Prop
  | two {a : Nat} (hlow : 2 ≤ a) (hhigh : a < 32) : Opens (0xC0 + a) ⟨1, 0x80, 0xBF, a⟩
  | three {a low high : Nat} (ha : a < 16) (hlow : 0x80 ≤ low) (hhigh : high ≤ 0xBF)
    (hlong : a = 0 → 0xA0 ≤ low)
      (hsurrogate : a = 13 → high ≤ 0x9F) : Opens (0xE0 + a) ⟨2, low, high, a⟩
  | four {a low high : Nat} (ha : a < 5) (hlow : 0x80 ≤ low) (hhigh : high ≤ 0xBF) (hlong : a = 0 → 0x90 ≤ low)
      (hlast : a = 4 → high ≤ 0x8F) : Opens (0xF0 + a) ⟨3, low, high, a⟩

theorem opens_of_opening {p : Pending} (h : opening n = .more p) : Opens n p := by
  have hdown : ∀ k, k ≤ n → n = k + (n - k) := by omega
  unfold opening at h
  split_ifs at h with h1 h2 h3 h4 h5 h6 h7 h8 h9 <;> cases h
  · rw [hdown 0xC0 (by omega), Nat.add_sub_cancel_left]
    exact .two (by omega) (by omega)
  · subst n
    exact .three (a := 0) (by omega) (by omega) (by omega) (by omega) (by omega)
  · subst n
    exact .three (a := 13) (by omega) (by omega) (by omega) (by omega) (by omega)
  · rw [hdown 0xE0 (by omega), Nat.add_sub_cancel_left]
    exact .three (by omega) (by omega) (by omega) (by omega) (by omega)
  · subst n
    exact .four (a := 0) (by omega) (by omega) (by omega) (by omega) (by omega)
  · rw [hdown 0xF0 (by omega), Nat.add_sub_cancel_left]
    exact .four (by omega) (by omega) (by omega) (by omega) (by omega)
  · subst n
    exact .four (a := 4) (by omega) (by omega) (by omega) (by omega) (by omega)

theorem opening_eq_char {c : Char} (h : opening n = .char c) : n < 0x80 ∧ c = Char.ofNat n := by
  unfold opening at h
  split at h
  · next hn => exact ⟨hn, by cases h; rfl⟩
  · repeat' (split at h)
    all_goals cases h

theorem toNat_ofNat (hn : n < 0xD800 ∨ 0xDFFF < n ∧ n < 0x110000) : (Char.ofNat n).toNat = n := by
  rw [Char.ofNat, dif_pos hn]
  rfl

theorem toUInt8_eq {b : UInt8} (h : b.toNat = n) : n.toUInt8 = b := by
  subst h
  simp

theorem encodeChar_one (h : b.toNat < 0x80) : encodeChar (Char.ofNat b.toNat) = [b] := by
  have hn : (Char.ofNat b.toNat).toNat = b.toNat := toNat_ofNat (by omega)
  unfold encodeChar
  rw [hn, if_pos h, toUInt8_eq rfl]

theorem encodeChar_two (hb : b.toNat = 0xC0 + a) (ha : 2 ≤ a) (ha' : a < 32) (hb₁ : 0x80 ≤ b₁.toNat)
    (hb₂ : b₁.toNat ≤ 0xBF) : encodeChar (Char.ofNat (a * 64 + b₁.toNat % 64)) = [b, b₁] := by
  have hn := toNat_ofNat (n := a * 64 + b₁.toNat % 64) (by omega)
  unfold encodeChar
  rw [hn, if_neg (by omega), if_pos (by omega), toUInt8_eq (b := b) (by omega), toUInt8_eq (b := b₁) (by omega)]

theorem encodeChar_three (hb : b.toNat = 0xE0 + a) (ha : a < 16) (hb₁ : 0x80 ≤ b₁.toNat ∧ b₁.toNat ≤ 0xBF)
    (hlong : a = 0 → 0xA0 ≤ b₁.toNat) (hsurrogate : a = 13 → b₁.toNat ≤ 0x9F)
    (hb₂ : 0x80 ≤ b₂.toNat ∧ b₂.toNat ≤ 0xBF) :
    encodeChar (Char.ofNat ((a * 64 + b₁.toNat % 64) * 64 + b₂.toNat % 64)) = [b, b₁, b₂] := by
  have hn := toNat_ofNat (n := (a * 64 + b₁.toNat % 64) * 64 + b₂.toNat % 64) (by omega)
  unfold encodeChar
  rw [hn, if_neg (by omega), if_neg (by omega), if_pos (by omega), toUInt8_eq (b := b) (by omega),
    toUInt8_eq (b := b₁) (by omega), toUInt8_eq (b := b₂) (by omega)]

theorem encodeChar_four (hb : b.toNat = 0xF0 + a) (ha : a < 5) (hb₁ : 0x80 ≤ b₁.toNat ∧ b₁.toNat ≤ 0xBF)
    (hlong : a = 0 → 0x90 ≤ b₁.toNat) (hlast : a = 4 → b₁.toNat ≤ 0x8F)
    (hb₂ : 0x80 ≤ b₂.toNat ∧ b₂.toNat ≤ 0xBF) (hb₃ : 0x80 ≤ b₃.toNat ∧ b₃.toNat ≤ 0xBF) :
    encodeChar (Char.ofNat (((a * 64 + b₁.toNat % 64) * 64 + b₂.toNat % 64) * 64 + b₃.toNat % 64)) =
      [b, b₁, b₂, b₃] := by
  have hn := toNat_ofNat (n := ((a * 64 + b₁.toNat % 64) * 64 + b₂.toNat % 64) * 64 + b₃.toNat % 64) (by omega)
  unfold encodeChar
  rw [hn, if_neg (by omega), if_neg (by omega), if_neg (by omega), toUInt8_eq (b := b) (by omega),
    toUInt8_eq (b := b₁) (by omega), toUInt8_eq (b := b₂) (by omega), toUInt8_eq (b := b₃) (by omega)]

/-- The first character of a text that is read, with its bytes. -/
theorem decodeFrom_split (h : decodeFrom none acc (b :: s) = some t) :
    ∃ c r, b :: s = encodeChar c ++ r ∧ decodeFrom none (c :: acc) r = some t := by
  rw [decodeFrom, advance] at h
  cases ho : opening b.toNat with
  | refused => simp [ho] at h
  | char c =>
    obtain ⟨hb, rfl⟩ := opening_eq_char ho
    rw [ho] at h
    exact ⟨_, s, by rw [encodeChar_one hb]; rfl, h⟩
  | more p =>
    rw [ho] at h
    generalize hn : b.toNat = n at ho
    cases opens_of_opening ho with
    | two hlow hhigh =>
      obtain ⟨b₁, r, rfl, hlow₁, hhigh₁, hrest⟩ := decodeFrom_owing_one h
      exact ⟨_, r, by rw [encodeChar_two hn hlow hhigh hlow₁ hhigh₁]; rfl, hrest⟩
    | three ha hlow hhigh hlong hsurrogate =>
      obtain ⟨b₁, b₂, r, rfl, hlow₁, hhigh₁, hlow₂, hhigh₂, hrest⟩ := decodeFrom_owing_two h
      exact ⟨_, r, by rw [encodeChar_three hn ha (by omega) (by omega) (by omega) ⟨hlow₂, hhigh₂⟩]; rfl,
        hrest⟩
    | four ha hlow hhigh hlong hlast =>
      obtain ⟨b₁, b₂, b₃, r, rfl, hlow₁, hhigh₁, hlow₂, hhigh₂, hlow₃, hhigh₃, hrest⟩ :=
        decodeFrom_owing_three h
      exact ⟨_, r, by
        rw [encodeChar_four hn ha (by omega) (by omega) (by omega) ⟨hlow₂, hhigh₂⟩
          ⟨hlow₃, hhigh₃⟩]; rfl, hrest⟩

theorem length_encodeChar_pos (c : Char) : 0 < (encodeChar c).length := by
  unfold encodeChar
  dsimp only
  repeat' split
  all_goals simp

theorem eq_encodeChars_of_decodeFrom (h : decodeFrom none acc s = some t) :
    ∃ u, t = acc.reverse ++ u ∧ s = encodeChars u := by
  induction hlen : s.length using Nat.strong_induction_on generalizing acc s with
  | _ k ih =>
    cases s with
    | nil =>
      rw [decodeFrom] at h
      exact ⟨[], by simpa using h.symm, rfl⟩
    | cons b s =>
      obtain ⟨c, r, hsplit, hrest⟩ := decodeFrom_split h
      have hshorter : r.length < k := by
        have hpos := length_encodeChar_pos c
        rw [← hlen, hsplit, List.length_append]
        omega
      obtain ⟨u, rfl, rfl⟩ := ih r.length hshorter hrest rfl
      exact ⟨c :: u, by simp, by rw [hsplit]; rfl⟩

/-- Only what has been written is read. -/
theorem decode_eq_some_iff {u : String} : decode s = some u ↔ s = encode u := by
  constructor
  · intro h
    obtain ⟨t, ht, rfl⟩ := Option.map_eq_some_iff.1 h
    obtain ⟨u, rfl, rfl⟩ := eq_encodeChars_of_decodeFrom ht
    simp [encode]
  · rintro rfl
    exact decode_encode u

/-- A text that can be read is read without a replacement. -/
theorem decodeLossyFrom_of_decodeFrom {st : Option Pending} (h : decodeFrom st acc s = some t) :
    decodeLossyFrom st acc s = t := by
  induction s generalizing st acc with
  | nil => cases st <;> simp_all [decodeFrom, decodeLossyFrom]
  | cons b r ih =>
    cases ho : advance st b.toNat with
    | char c =>
      rw [decodeFrom, ho] at h
      cases st <;> simpa only [decodeLossyFrom, ho] using ih h
    | more p =>
      rw [decodeFrom, ho] at h
      cases st <;> simpa only [decodeLossyFrom, ho] using ih h
    | refused => simp [decodeFrom, ho] at h

theorem decodeLossy_encode (s : String) : decodeLossy (encode s) = s := by
  rw [decodeLossy, encode, decodeLossyFrom_of_decodeFrom (decodeFrom_encodeChars s.toList []), List.reverse_nil,
    List.nil_append, String.ofList_toList]

end

end Overseer.Text.Utf8
