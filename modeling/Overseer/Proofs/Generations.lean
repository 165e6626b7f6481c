import Overseer.Proofs.Custody

/-!
# Generations of a handle

Nothing but a spawn upon a handle gives it a new generation.

    births h es       =  the spawns upon h among the entries es
    Lineage h s es t  =  from s to t the generation of h has grown by the births among es

Main statement: `lineage_moves` (moves keep to the births in what they log).
-/

namespace Overseer

open Supervisor
open Relation (ReflTransGen)

namespace Supervisor

def Entry.isBirth (h : Nat) : Entry → Bool
  | .spawned i _ _ => i == h
  | _ => false

def births (h : Nat) (es : List Entry) : Nat := es.countP (Entry.isBirth h)

end Supervisor

namespace Machine

/-- A handle that was never started may not be there yet; then a spawn upon it would change nothing. -/
structure Lineage (h : Nat) (s : Machine) (es : List Entry) (t : Machine) : Prop where
  still : births h es = 0 → (t.handle h).generation = (s.handle h).generation
  grown : (s.handle h).state ≠ .notStarted → (t.handle h).state ≠ .notStarted ∧
    (t.handle h).generation = (s.handle h).generation + births h es

variable {o s t u : Machine} {σ τ : Scene} {log : List Entry} {h : Nat}

/-! ## Lemmas -/

theorem births_append (h : Nat) (es es' : List Entry) :
    births h (es ++ es') = births h es + births h es' :=
  List.countP_append

theorem births_eq_zero {es : List Entry} : births h es = 0 ↔ ∀ g p, .spawned h g p ∉ es := by
  rw [births, List.countP_eq_zero]
  constructor
  · intro hno g p hm
    exact hno _ hm (by simp [Entry.isBirth])
  · intro hno e he hb
    cases e with
    | spawned i g p =>
      obtain rfl : i = h := by simpa [Entry.isBirth] using hb
      exact hno g p he
    | _ => cases hb

theorem Lineage.trans {es es' : List Entry} (hl : Lineage h s es t) (hl' : Lineage h t es' u) :
    Lineage h s (es' ++ es) u := by
  have hsum := births_append h es' es
  refine ⟨?_, ?_⟩
  · intro hz
    rw [hl'.still (by omega), hl.still (by omega)]
  · intro hst
    obtain ⟨hst', hg⟩ := hl.grown hst
    obtain ⟨hst'', hg'⟩ := hl'.grown hst'
    refine ⟨hst'', ?_⟩
    omega

/-- Where nobody is born, a handle of the same generation that has not left its state is enough. -/
theorem lineage_of_same {es : List Entry} (hes : ∀ g p, .spawned h g p ∉ es)
    (hst : (s.handle h).state ≠ .notStarted → (t.handle h).state ≠ .notStarted)
    (hg : (t.handle h).generation = (s.handle h).generation) : Lineage h s es t := by
  refine ⟨fun _ => hg, fun h => ⟨hst h, ?_⟩⟩
  rw [births_eq_zero.2 hes]
  exact hg

theorem lineage_of_handle (hh : t.handle h = s.handle h) : Lineage h s [] t :=
  lineage_of_same (by simp) (by rw [hh]; exact id) (by rw [hh])

theorem Adopted.lineage {e : Execution} {i : Nat} {pid : Int} {before after : List Entry}
    (ha : Adopted s t i e pid) (hb : ∀ e ∈ before, e.isPlain = true) (haf : ∀ e ∈ after, e.isPlain = true) :
    Lineage h s (after ++ .spawned i ((s.handle i).generation + 1) pid :: before) t := by
  have hbirths : births h (after ++ .spawned i ((s.handle i).generation + 1) pid :: before) =
      if i = h then 1 else 0 := by
    have hbefore : births h before = 0 := births_eq_zero.2 (spawned_not_mem_plain hb h)
    have hafter : births h after = 0 := births_eq_zero.2 (spawned_not_mem_plain haf h)
    rw [births_append, hafter, births, List.countP_cons, ← births, hbefore]
    simp [Entry.isBirth]
  by_cases hi : i = h
  · subst hi
    rw [if_pos rfl] at hbirths
    refine ⟨fun hz => by omega, ?_⟩
    intro hst
    obtain ⟨out, err, hlife, -⟩ := ha.life (lt_of_ne_fresh fun hf => hst (by rw [hf]; rfl))
    have hrun : (t.handle i).state = .running := congrArg Life.state hlife
    have hgen : (t.handle i).generation = (s.handle i).generation + 1 := congrArg Life.generation hlife
    refine ⟨by rw [hrun]; decide, ?_⟩
    rw [hbirths, hgen]
  · rw [if_neg hi] at hbirths
    have hsame : t.handle h = s.handle h := ha.others h (.inl fun he => hi he.symm)
    refine ⟨fun _ => by rw [hsame], ?_⟩
    intro hst
    rw [hbirths, hsame]
    exact ⟨hst, rfl⟩

/-! ## Effects and moves -/

theorem lineage_effect {es : List Entry} (he : Effect o σ τ) (hs : σ.Sound)
    (hj : τ.machine.journal = es ++ σ.machine.journal) : Lineage h σ.machine es τ.machine := by
  have hnews : ∀ es', τ.machine.journal = es' ++ σ.machine.journal → es' = es := fun _ h =>
    List.append_cancel_right (h.symm.trans hj)
  rcases effect_cases he hs with ⟨hq, es', hj', haside⟩ | hch
  · obtain rfl := hnews es' hj'
    have hf := hq.handles h
    exact lineage_of_same (fun _ _ hm => by cases haside _ hm) (by rw [hf.state]; exact id) hf.generation
  · cases hch with
    | collected =>
      obtain rfl := hnews _ (journal_collect _)
      exact lineage_of_same (fun _ _ => spawned_not_mem_questions) id rfl
    | taken time k st hk hst =>
      obtain rfl := hnews [_] rfl
      exact lineage_of_same (by simp) id rfl
    | @adopted s t held rs i c e pid ha ho hng hk hsame =>
      obtain ⟨before, after, hja, hb, haf⟩ := ha.journal
      obtain rfl := hnews (after ++ .spawned i ((s.handle i).generation + 1) pid :: before) (by simp [hja])
      exact ha.lineage hb haf
    | @closed s t held rs i hcl hlive ho hsame hrs =>
      obtain ⟨es', hj', hp⟩ := hcl.journal
      obtain rfl := hnews es' hj'
      have hnone := spawned_not_mem_plain hp h
      by_cases hi : h = i
      · subst hi
        have hstate : (t.handle h).state = .closed := congrArg Life.state hcl.handle
        exact lineage_of_same hnone (fun _ => by rw [hstate]; decide) (congrArg Life.generation hcl.handle)
      · have hkept : t.handle h = s.handle h := hcl.others h hi
        exact lineage_of_same hnone (by rw [hkept]; exact id) (by rw [hkept])
    | @reaped s held rs i pid st hx hrun =>
      obtain rfl := hnews [] rfl
      have hmap := handle_mapHandle s i h
        (fun x => { x with state := .reaped, status := some st, childWatch := none })
      split at hmap
      · next hi =>
        obtain ⟨rfl, -⟩ := hi
        exact lineage_of_same (by simp) (fun _ => by rw [hmap]; simp) (by rw [hmap])
      · exact lineage_of_handle hmap

theorem lineage_step (hc : Custody s.scene log) : Lineage h s s.news s.step := by
  obtain ⟨news, hj, -, es, hes, hl⟩ := hc.effects
    (P := fun τ log' => ∃ es, log' = es ++ log ∧ Lineage h s es τ.machine)
    ⟨[], rfl, lineage_of_handle rfl⟩
    (fun σ τ _ news hc' ⟨es, hes, hl⟩ he hj =>
      ⟨news ++ es, by rw [hes, List.append_assoc], hl.trans (lineage_effect he hc'.sound hj)⟩)
    (step_effects s hc.sound.tidy)
  obtain rfl := List.append_cancel_right hes
  rw [news_eq hj]
  exact hl

/-- Along moves the generation of a handle grows by the births in what they log. -/
theorem lineage_moves {G : Machine → Prop} {x y : Machine × List Entry} (hr : Run G x.1 x.2)
    (hm : ReflTransGen (Move G) x y) : ∃ es, y.2 = es ++ x.2 ∧ Lineage h x.1 es y.1 := by
  have key : Run G y.1 y.2 ∧ ∃ es, y.2 = es ++ x.2 ∧ Lineage h x.1 es y.1 := by
    induction hm with
    | refl => exact ⟨hr, [], rfl, lineage_of_handle rfl⟩
    | @tail y z _ hm ih =>
      obtain ⟨hy, es, hes, hl⟩ := ih
      refine ⟨hy.move hm, ?_⟩
      rcases move_cases hm with ⟨-, hz, hlog⟩ | ⟨hb, hlog⟩
      · refine ⟨y.1.news ++ es, by rw [hlog, hes, List.append_assoc], ?_⟩
        rw [hz]
        exact hl.trans (lineage_step (custody_run hy))
      · refine ⟨es, by rw [hlog, hes], ?_⟩
        refine hl.trans (lineage_of_handle ?_)
        rw [handle, handle, hb.handles]
  exact key.2

end Machine

end Overseer
