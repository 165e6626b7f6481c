import Mathlib.Data.List.Induction
import Mathlib.Data.List.Nodup
import Overseer.Command.Environment

/-!
# Merging environments

Overrides come of calls, each of which sets a name to a value or removes it, and the last call on a name decides.
A name of which they say nothing keeps the last value that it was inherited with.

    entries  =  the names of the calls, each with what the last call on it says
    apply    =  the inherited names that are not removed,
                then the names that are set and were not inherited

Names stand in the order of their first mention.  The entries and the inherited variables are gathered
alike: each name once, in its first place, with its last value.

Main statement: `merge_spec`.
-/

namespace Overseer.Command

variable {α : Type} {l e : List (String × α)} {m n : String} {v : α}

/-! ## What a merge is to give -/

/-- The value that stands last beside a name. -/
def last? (name : String) (l : List (String × α)) : Option α := look? name l.reverse

/-- The names of a list, each once, in the order of their first mention. -/
def namesOf (l : List (String × α)) : List String := (l.map Prod.fst).eraseDups

/-- `e` has each name of `l` once, in the order of the first mention, with its last value. -/
structure Gathered (l e : List (String × α)) : Prop where
  distinct : (e.map Prod.fst).Nodup
  order : e.map Prod.fst = namesOf l
  mem_iff : ∀ name value, (name, value) ∈ e ↔ last? name l = some value

/-- The last call on a name sets it. -/
def isSet (calls : List (String × Option String)) (name : String) : Bool := (last? name calls).any Option.isSome

/-- The last call on a name removes it. -/
def isRemoved (calls : List (String × Option String)) (name : String) : Bool := (last? name calls).any Option.isNone

/-- `merged` is what becomes of the inherited variables under some calls. -/
structure Merged (calls : List (String × Option String)) (inherited merged : List (String × String)) : Prop where
  distinct : (merged.map Prod.fst).Nodup
  names : ∀ name, name ∈ merged.map Prod.fst ↔
    (∃ value, last? name calls = some (some value)) ∨ (last? name calls = none ∧ name ∈ inherited.map Prod.fst)
  mem_iff : ∀ name value, (name, value) ∈ merged ↔
    last? name calls = some (some value) ∨ (last? name calls = none ∧ last? name inherited = some value)
  order : merged.map Prod.fst = (namesOf inherited).filter (fun name => !isRemoved calls name) ++
    (namesOf calls).filter fun name => isSet calls name && !(inherited.map Prod.fst).contains name

namespace Overrides

/-- A name with a value is set, and one without is removed. -/
def call (o : Overrides) : String × Option String → Overrides
  | (name, some value) => o.set name value
  | (name, none) => o.unset name

/-- The overrides after some calls, the first one first. -/
def ofCalls (calls : List (String × Option String)) : Overrides := calls.foldl call .empty

end Overrides

/-- Pairs inserted one after the other. -/
def gather (l : List (String × α)) : List (String × α) := l.foldl (fun e kv => upsert kv.1 kv.2 e) []

/-! ## Names and values -/

theorem look?_eq_none_iff : look? n e = none ↔ n ∉ e.map Prod.fst := by
  induction e with
  | nil => simp [look?]
  | cons kv r ih =>
    obtain ⟨k, w⟩ := kv
    unfold look?
    by_cases hk : k = n
    · simp [hk]
    · have hn : ¬ n = k := fun h => hk h.symm
      rw [if_neg hk, ih]
      simp [hn]

theorem mem_keys_iff : n ∈ e.map Prod.fst ↔ ∃ v, look? n e = some v := by
  rw [← Option.ne_none_iff_exists', ne_eq, look?_eq_none_iff, not_not]

/-- Where no name stands twice, a pair is found under its name. -/
theorem mem_iff_look? (hd : (e.map Prod.fst).Nodup) : (n, v) ∈ e ↔ look? n e = some v := by
  refine ⟨fun hm => ?_, mem_of_look?⟩
  induction e with
  | nil => cases hm
  | cons kv r ih =>
    obtain ⟨k, w⟩ := kv
    obtain ⟨hk, hr⟩ := List.nodup_cons.1 hd
    unfold look?
    rcases List.mem_cons.1 hm with heq | hm
    · cases heq
      rw [if_pos rfl]
    · have hn : n ∈ r.map Prod.fst := List.mem_map.2 ⟨(n, v), hm, rfl⟩
      rw [if_neg (ne_of_mem_of_not_mem hn hk).symm, ih hr hm]

theorem nodup_upsert (hd : (e.map Prod.fst).Nodup) : ((upsert m v e).map Prod.fst).Nodup := by
  rw [keys_upsert]
  split
  · exact hd
  · next hm =>
    refine List.nodup_append.2 ⟨hd, List.nodup_singleton m, ?_⟩
    simpa using fun n hn => ne_of_mem_of_not_mem hn hm

theorem mem_namesOf : n ∈ namesOf l ↔ n ∈ l.map Prod.fst := List.mem_eraseDups

theorem namesOf_concat (l : List (String × α)) (c : String × α) :
    namesOf (l ++ [c]) = if c.1 ∈ l.map Prod.fst then namesOf l else namesOf l ++ [c.1] := by
  unfold namesOf
  rw [List.map_append, List.eraseDups_append]
  by_cases hc : c.1 ∈ l.map Prod.fst
  · rw [if_pos hc]
    simp [List.removeAll, hc]
  · rw [if_neg hc]
    simp [List.removeAll, hc, List.eraseDups_cons]

theorem last?_concat (n : String) (l : List (String × α)) (c : String × α) :
    last? n (l ++ [c]) = if c.1 = n then some c.2 else last? n l := by
  simp [last?, look?]

theorem mem_keys_iff_last? : n ∈ l.map Prod.fst ↔ ∃ v, last? n l = some v := by
  rw [← List.mem_reverse, ← List.map_reverse, mem_keys_iff]
  rfl

/-! ## Gathering -/

theorem gather_concat (l : List (String × α)) (c : String × α) :
    gather (l ++ [c]) = upsert c.1 c.2 (gather l) := by
  rw [gather, List.foldl_append]
  rfl

theorem keys_gather (l : List (String × α)) : (gather l).map Prod.fst = namesOf l := by
  induction l using List.reverseRecOn with
  | nil => rfl
  | append_singleton l c ih =>
    rw [gather_concat, keys_upsert, namesOf_concat, ih]
    simp only [mem_namesOf]

theorem look?_gather (n : String) (l : List (String × α)) : look? n (gather l) = last? n l := by
  induction l using List.reverseRecOn with
  | nil => rfl
  | append_singleton l c ih => rw [gather_concat, look?_upsert, last?_concat, ih]

theorem nodup_gather (l : List (String × α)) : ((gather l).map Prod.fst).Nodup := by
  induction l using List.reverseRecOn with
  | nil => exact List.nodup_nil
  | append_singleton l c ih =>
    rw [gather_concat]
    exact nodup_upsert ih

theorem gathered_gather (l : List (String × α)) : Gathered l (gather l) where
  distinct := nodup_gather l
  order := keys_gather l
  mem_iff name value := by rw [mem_iff_look? (nodup_gather l), look?_gather]

/-- The calls are gathered into the entries. -/
theorem entries_ofCalls (calls : List (String × Option String)) :
    (Overrides.ofCalls calls).entries = gather calls := by
  induction calls using List.reverseRecOn with
  | nil => rfl
  | append_singleton calls c ih =>
    rw [gather_concat, ← ih, Overrides.ofCalls, List.foldl_append]
    obtain ⟨name, value⟩ := c
    cases value <;> rfl

/-! ## Putting entries upon variables -/

variable {es : List (String × Option String)} {vars : List (String × String)}

theorem look?_filter (n m : String) (e : List (String × α)) :
    look? n (e.filter fun kv => kv.1 != m) = if m = n then none else look? n e := by
  by_cases hm : m = n
  · rw [if_pos hm, look?_eq_none_iff]
    simp [hm]
  · rw [if_neg hm]
    induction e with
    | nil => rfl
    | cons kv r ih =>
      obtain ⟨k, w⟩ := kv
      by_cases hk : k = m
      · have hkn : ¬ k = n := fun h => hm (hk.symm.trans h)
        rw [List.filter_cons_of_neg (by simp [hk]), ih, look?, if_neg hkn]
      · rw [List.filter_cons_of_pos (by simp [hk]), look?, look?, ih]

/-- An entry decides of its own name only. -/
theorem look?_applyEntry (n : String) (c : String × Option String) (vars : List (String × String)) :
    look? n (Overrides.applyEntry vars c) = if c.1 = n then c.2 else look? n vars := by
  obtain ⟨name, value⟩ := c
  cases value with
  | some value => exact look?_upsert n name value vars
  | none => exact look?_filter n name vars

theorem nodup_applyEntry (c : String × Option String) (hd : (vars.map Prod.fst).Nodup) :
    ((Overrides.applyEntry vars c).map Prod.fst).Nodup := by
  obtain ⟨name, value⟩ := c
  cases value with
  | some value => exact nodup_upsert hd
  | none => exact hd.sublist (List.filter_sublist.map Prod.fst)

theorem nodup_foldl (hd : (vars.map Prod.fst).Nodup) :
    ((es.foldl Overrides.applyEntry vars).map Prod.fst).Nodup := by
  induction es generalizing vars with
  | nil => exact hd
  | cons c es ih => exact ih (nodup_applyEntry c hd)

/-- What the entries say of a name counts before the variables. -/
theorem look?_foldl (hd : (es.map Prod.fst).Nodup) (n : String) (vars : List (String × String)) :
    look? n (es.foldl Overrides.applyEntry vars) = (look? n es).getD (look? n vars) := by
  induction es generalizing vars with
  | nil => rfl
  | cons c es ih =>
    obtain ⟨name, value⟩ := c
    obtain ⟨hname, hes⟩ := List.nodup_cons.1 hd
    rw [List.foldl_cons, ih hes, look?_applyEntry, look?]
    by_cases hn : name = n
    · subst hn
      rw [if_pos rfl, if_pos rfl, look?_eq_none_iff.2 hname]
      rfl
    · rw [if_neg hn, if_neg hn]

/-- The names among `ns` that no entry removes. -/
def kept (es : List (String × Option String)) (ns : List String) : List String :=
  ns.filter fun n => !(look? n es).any Option.isNone

/-- The names that an entry sets, and that are not among `ns`. -/
def fresh (es : List (String × Option String)) (ns : List String) : List String :=
  (es.map Prod.fst).filter fun n => (look? n es).any Option.isSome && !ns.contains n

section

variable {name value : String} {ns : List String} (hname : name ∉ es.map Prod.fst)

theorem look?_cons_ne {w : Option String} (hn : n ≠ name) : look? n ((name, w) :: es) = look? n es := if_neg hn.symm

theorem kept_cons_none : kept ((name, none) :: es) ns = kept es (ns.filter (· != name)) := by
  unfold kept
  rw [List.filter_filter]
  refine List.filter_congr fun n _ => ?_
  by_cases hn : n = name
  · simp [hn, look?]
  · simp [hn, look?_cons_ne hn]

include hname

theorem ne_of_mem_keys (hn : n ∈ es.map Prod.fst) : n ≠ name := ne_of_mem_of_not_mem hn hname

theorem kept_cons_some : kept ((name, some value) :: es) ns = kept es ns := by
  refine List.filter_congr fun n _ => ?_
  by_cases hn : n = name
  · simp [hn, look?, look?_eq_none_iff.2 hname]
  · rw [look?_cons_ne hn]

theorem kept_concat : kept es (ns ++ [name]) = kept es ns ++ [name] := by
  unfold kept
  rw [List.filter_append, List.filter_cons_of_pos (by simp [look?_eq_none_iff.2 hname]), List.filter_nil]

theorem fresh_cons_none : fresh ((name, none) :: es) ns = fresh es (ns.filter (· != name)) := by
  unfold fresh
  rw [List.map_cons, List.filter_cons_of_neg (by simp [look?])]
  refine List.filter_congr fun n hn => ?_
  have hne := ne_of_mem_keys hname hn
  rw [look?_cons_ne hne]
  simp [List.mem_filter, hne]

theorem fresh_concat : fresh es (ns ++ [name]) = fresh es ns := by
  refine List.filter_congr fun n hn => ?_
  simp [ne_of_mem_keys hname hn]

theorem fresh_cons_some :
    fresh ((name, some value) :: es) ns = if name ∈ ns then fresh es ns else name :: fresh es ns := by
  have hrest : (es.map Prod.fst).filter
      (fun n => (look? n ((name, some value) :: es)).any Option.isSome && !ns.contains n) = fresh es ns := by
    refine List.filter_congr fun n hn => ?_
    rw [look?_cons_ne (ne_of_mem_keys hname hn)]
  unfold fresh at hrest ⊢
  rw [List.map_cons, List.filter_cons, hrest]
  by_cases hin : name ∈ ns <;> simp [look?, hin]

end

theorem keys_applyEntry_none (name : String) (vars : List (String × String)) :
    (Overrides.applyEntry vars (name, none)).map Prod.fst = (vars.map Prod.fst).filter (· != name) := by
  rw [Overrides.applyEntry, List.filter_map]
  rfl

/-- Names that are not removed keep their places, and names that are set come behind those that were there. -/
theorem keys_foldl (hd : (es.map Prod.fst).Nodup) (vars : List (String × String)) :
    (es.foldl Overrides.applyEntry vars).map Prod.fst =
      kept es (vars.map Prod.fst) ++ fresh es (vars.map Prod.fst) := by
  induction es generalizing vars with
  | nil =>
    have hall : kept [] (vars.map Prod.fst) = vars.map Prod.fst := List.filter_eq_self.2 fun _ _ => rfl
    rw [hall]
    exact (List.append_nil _).symm
  | cons c es ih =>
    obtain ⟨name, value⟩ := c
    obtain ⟨hname, hes⟩ := List.nodup_cons.1 hd
    rw [List.foldl_cons, ih hes]
    cases value with
    | none => rw [keys_applyEntry_none, kept_cons_none, fresh_cons_none hname]
    | some value =>
      have hkeys : (Overrides.applyEntry vars (name, some value)).map Prod.fst =
          if name ∈ vars.map Prod.fst then vars.map Prod.fst else vars.map Prod.fst ++ [name] := keys_upsert _ _ _
      rw [hkeys, kept_cons_some hname, fresh_cons_some hname]
      by_cases hin : name ∈ vars.map Prod.fst
      · rw [if_pos hin, if_pos hin]
      · rw [if_neg hin, if_neg hin, kept_concat hname, fresh_concat hname, List.append_assoc, List.singleton_append]

/-! ## The merge -/

theorem apply_ofCalls (calls : List (String × Option String)) (inherited : List (String × String)) :
    (Overrides.ofCalls calls).apply inherited = (gather calls).foldl Overrides.applyEntry (gather inherited) := by
  rw [Overrides.apply, entries_ofCalls]
  rfl

/-- **Merging is what it says.**  After any calls, the entries of the overrides are the names that were
mentioned, each with the effect of the last call on it.  Put upon any inherited variables, repeated ones
included, they give each name once: one that is set has the value of the last call, one that is removed is not
there, and one that was not mentioned has the last value inherited; the inherited names that are left come
first, and then the names that are new. -/
theorem merge_spec (calls : List (String × Option String)) (inherited : List (String × String)) :
    Gathered calls (Overrides.ofCalls calls).entries ∧
      Merged calls inherited ((Overrides.ofCalls calls).apply inherited) := by
  rw [entries_ofCalls, apply_ofCalls]
  have hlook : ∀ n, look? n ((gather calls).foldl Overrides.applyEntry (gather inherited)) =
      (last? n calls).getD (last? n inherited) := fun n => by
    rw [look?_foldl (nodup_gather calls), look?_gather, look?_gather]
  have hnodup : (((gather calls).foldl Overrides.applyEntry (gather inherited)).map Prod.fst).Nodup :=
    nodup_foldl (nodup_gather inherited)
  refine ⟨gathered_gather calls, hnodup, fun name => ?names, fun name value => ?mem_iff, ?order⟩
  case names =>
    rw [mem_keys_iff, hlook, mem_keys_iff_last?]
    cases last? name calls with
    | none => simp
    | some said => cases said <;> simp
  case mem_iff =>
    rw [mem_iff_look? hnodup, hlook]
    cases last? name calls with
    | none => simp
    | some said => cases said <;> simp
  case order =>
    rw [keys_foldl (nodup_gather calls), keys_gather]
    congr 1
    · exact List.filter_congr fun name _ => by rw [look?_gather, isRemoved]
    · rw [fresh, keys_gather]
      refine List.filter_congr fun name _ => ?_
      simp only [look?_gather, isSet, List.contains_eq_mem, mem_namesOf]

example : (Overrides.ofCalls [("A", none), ("B", none), ("C", some "3"), ("A", some "2")]).apply
    [("B", "x"), ("P", "/bin"), ("A", "0"), ("P", "/usr/bin")] = [("P", "/usr/bin"), ("A", "2"), ("C", "3")] := by
    decide

end Overseer.Command
