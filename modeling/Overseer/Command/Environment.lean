import Overseer.Text.Utf8

/-!
# Environments and their overrides

An environment is a list of names with values, each name once.  Overrides say of some names that
they are set or removed; a name keeps the place of its first mention.

    look n (apply o e)  =  the value that o sets for n, nothing if o removes n, else the last of e

`apply` keeps the inherited names in the order of their first occurrence and puts new ones behind
them in the order of their first mention.
-/

namespace Overseer.Command

/-- Insert or replace in place. -/
def upsert {α : Type} (name : String) (value : α) : List (String × α) → List (String × α)
  | [] => [(name, value)]
  | (k, v) :: r => if k = name then (k, value) :: r else (k, v) :: upsert name value r

/-- The value that stands beside a name. -/
def look? {α : Type} (name : String) : List (String × α) → Option α
  | [] => none
  | (k, v) :: r => if k = name then some v else look? name r

/-- Names that are to be set to a value, or removed. -/
structure Overrides where
  entries : List (String × Option String)
  deriving DecidableEq, Repr

namespace Overrides

def empty : Overrides := ⟨[]⟩

def set (o : Overrides) (name value : String) : Overrides :=
  ⟨upsert name (some value) o.entries⟩

def unset (o : Overrides) (name : String) : Overrides := ⟨upsert name none o.entries⟩

/-- What is said of a name: nothing, that it is removed, or its value. -/
def get? (o : Overrides) (name : String) : Option (Option String) := look? name o.entries

/-- The inherited variables, each name once, with its last value in its first place. -/
def distinct (inherited : List (String × String)) : List (String × String) :=
  inherited.foldl (fun e kv => upsert kv.1 kv.2 e) []

def applyEntry (e : List (String × String)) : String × Option String → List (String × String)
  | (name, some value) => upsert name value e
  | (name, none) => e.filter fun kv => kv.1 != name

/-- The inherited variables with the overrides put upon them. -/
def apply (o : Overrides) (inherited : List (String × String)) : List (String × String) :=
  o.entries.foldl applyEntry (distinct inherited)

end Overrides

/-- Each variable as a `NAME=VALUE` text. -/
def materialize (vars : List (String × String)) : List String :=
  vars.map fun kv => kv.1 ++ "=" ++ kv.2

/-! ## Blocks -/

/-- A `NAME=VALUE` entry in its two parts; the first byte belongs to the name, whatever it is. -/
def splitEntry : Bytes → Option (Bytes × Bytes)
  | [] => none
  | b :: r =>
    match r.dropWhile (· != 0x3D) with
    | [] => none
    | _ :: value => some (b :: r.takeWhile (· != 0x3D), value)

/-- The variables of an environment block; an entry that is no text is passed over. -/
def ofBlock (entries : List Bytes) : List (String × String) :=
  entries.filterMap fun e => do
    let (name, value) ← splitEntry e
    return (← Text.Utf8.decode name, ← Text.Utf8.decode value)

/-! ## Lemmas -/

/-- What is found under a name stands beside it. -/
theorem mem_of_look? {α : Type} {n : String} {v : α} {l : List (String × α)} (h : look? n l = some v) :
    (n, v) ∈ l := by
  induction l with
  | nil => cases h
  | cons kv r ih =>
    obtain ⟨k, w⟩ := kv
    unfold look? at h
    by_cases hk : k = n
    · rw [if_pos hk] at h
      cases h
      rw [hk]
      exact List.mem_cons_self
    · rw [if_neg hk] at h
      exact List.mem_cons_of_mem _ (ih h)

theorem look?_upsert {α : Type} (n m : String) (v : α) (l : List (String × α)) :
    look? n (upsert m v l) = if m = n then some v else look? n l := by
  induction l with
  | nil => simp [upsert, look?]
  | cons kv r ih =>
    obtain ⟨k, w⟩ := kv
    unfold upsert
    by_cases hk : k = m
    · subst hk
      by_cases hn : k = n <;> simp [look?, hn]
    · by_cases hn : k = n
      · subst hn
        simp [look?, hk, Ne.symm hk]
      · simp [look?, hk, hn, ih]

/-- A new name is put behind the others, and a known one keeps its place. -/
theorem keys_upsert {α : Type} (m : String) (v : α) (l : List (String × α)) :
    (upsert m v l).map (·.1) = if m ∈ l.map (·.1) then l.map (·.1) else l.map (·.1) ++ [m] := by
  induction l with
  | nil => simp [upsert]
  | cons kv r ih =>
    obtain ⟨k, w⟩ := kv
    unfold upsert
    by_cases hk : k = m
    · simp [hk]
    · have hm : ¬ m = k := fun h => hk h.symm
      simp only [hk, if_false, List.map_cons, ih, List.mem_cons, hm, false_or]
      split <;> simp

end Overseer.Command
