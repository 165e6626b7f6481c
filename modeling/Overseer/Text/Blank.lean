/-!
# Blank characters

A character is blank when it has the Unicode property `White_Space`.  `trim` removes the blanks at
both ends of a text, and `fieldsBy` cuts a text at every character of a class, keeping empty fields.

    fieldsBy p (a ++ c :: b) = fieldsBy p a ++ fieldsBy p b        when p c      (fieldsBy_append)
-/

namespace Overseer.Text

/-- The property `White_Space` of Unicode. -/
def isBlank (c : Char) : Bool :=
  let n := c.toNat
  (9 ≤ n && n ≤ 13) || n == 0x20 || n == 0x85 || n == 0xA0 || n == 0x1680 ||
    (0x2000 ≤ n && n ≤ 0x200A) || n == 0x2028 || n == 0x2029 || n == 0x202F || n == 0x205F ||
    n == 0x3000

/-- The text without the blanks at its two ends. -/
def trimChars (s : List Char) : List Char :=
  ((s.dropWhile isBlank).reverse.dropWhile isBlank).reverse

def trim (s : String) : String := String.ofList (trimChars s.toList)

/-- ASCII letters in lower case; every other character is kept. -/
def lower (s : String) : String := String.ofList (s.toList.map Char.toLower)

/-- The pieces between the characters of a class, the empty ones included. -/
def fieldsBy (p : Char → Bool) : List Char → List (List Char)
  | [] => [[]]
  | c :: r =>
    if p c then [] :: fieldsBy p r
    else match fieldsBy p r with
      | [] => [[c]]
      | f :: fs => (c :: f) :: fs

/-! ## Lemmas -/

theorem fieldsBy_ne_nil (p : Char → Bool) (s : List Char) : fieldsBy p s ≠ [] := by
  cases s with
  | nil => simp [fieldsBy]
  | cons c r =>
    unfold fieldsBy
    split
    · simp
    · split <;> simp

/-- A separator cuts the fields of what stands before it from those of what stands after it. -/
theorem fieldsBy_append (p : Char → Bool) (a b : List Char) (c : Char) (hc : p c = true) :
    fieldsBy p (a ++ c :: b) = fieldsBy p a ++ fieldsBy p b := by
  induction a with
  | nil => simp [fieldsBy, hc]
  | cons x r ih =>
    rw [List.cons_append, fieldsBy, fieldsBy, ih]
    split
    · simp
    · cases h : fieldsBy p r with
      | nil => exact absurd h (fieldsBy_ne_nil p r)
      | cons f fs => simp

end Overseer.Text
