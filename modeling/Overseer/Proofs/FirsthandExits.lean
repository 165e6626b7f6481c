import Overseer.Proofs.Balance
import Overseer.Proofs.Learning
import Overseer.Proofs.Opening
import Overseer.Proofs.Precedence

/-!
# Exits learnt at first hand

An exit that waitpid has told to somebody else is lost to all others who ask.  If the handle's own watch is
the only one on its child, the handle learns its status from the first final answer about that child.

    Firsthand h g st log  =  the first final answer about the child of generation g of handle h was st
    Sole h g s           =  while the generation g of the handle h runs, no other watch is on its child

A child is asked about in passes only, once before and once after the kernel is asked.

Main statements: `pass_cases`, `known_run`.
-/

namespace Overseer

open Supervisor
open Kernel (Wait)

namespace Supervisor

/-- The status is that of the first final answer about the child. -/
def Firsthand (h g : Nat) (st : ExitStatus) (log : List Entry) : Prop :=
  ∃ newer older p a, log = newer ++ .asked p a :: older ∧ Bears h g p older ∧ collected p older = false ∧
    a.isFinal = true ∧ Loop.statusOf a = some st

theorem Firsthand.append {h g : Nat} {st : ExitStatus} {log : List Entry} (hf : Firsthand h g st log)
    (news : List Entry) : Firsthand h g st (news ++ log) := by
  obtain ⟨newer, older, p, a, rfl, hb, hc, hfin, hst⟩ := hf
  exact ⟨news ++ newer, older, p, a, by simp, hb, hc, hfin, hst⟩

end Supervisor

/-! ## One collection -/

namespace Loop

variable {ws : List (Watch Callback)} {l : Loop Callback} {kern : Kernel} {k k' : Ward} {log : List Entry} {h g : Nat}
  {st : ExitStatus}

theorem not_asked {p : Int} (hno : ∀ w ∈ ws, ∀ m, w.ward? = some m → m.status = none → m.pid ≠ p)
    (a : Wait) :
    (p, a) ∉ (collectIn ws kern).2.1 := by
  induction ws generalizing kern with
  | nil => exact List.not_mem_nil
  | cons v r ih =>
    have hrest : ∀ w ∈ r, ∀ m, w.ward? = some m → m.status = none → m.pid ≠ p :=
      fun w hw => hno w (List.mem_cons_of_mem _ hw)
    rcases collectIn_cons v r kern with ⟨b, asked, kern', m, hm, hopen, -, v', -, -, heq⟩ | ⟨-, heq⟩
    · rw [heq]
      intro hmem
      rcases List.mem_append.1 hmem with hmem | hmem
      · obtain ⟨x, -, hx⟩ := List.mem_map.1 hmem
        exact hno v List.mem_cons_self m hm hopen (congrArg Prod.fst hx)
      · exact ih hrest hmem
    · rw [heq]
      exact ih hrest

/-- The questions about a child on which one open ward waits stand together: some interrupted ones, then one
that is answered. -/
theorem asked_together {w : Watch Callback} (kern : Kernel) (hids : (ws.map (·.id)).Nodup) (hw : w ∈ ws)
    (hk : w.ward? = some k) (hn : k.status = none)
    (hlone : ∀ v ∈ ws, ∀ m, v.ward? = some m → m.status = none → m.pid = k.pid → v.id = w.id) :
    ∃ before n a after, (collectIn ws kern).2.1 =
        before ++ (List.replicate n (Wait.failed 4) ++ [a]).map (fun x => (k.pid, x)) ++ after ∧
      (∀ b, (k.pid, b) ∉ before) ∧ ∀ b, (k.pid, b) ∉ after := by
  induction ws generalizing kern with
  | nil => cases hw
  | cons v r ih =>
    obtain ⟨hnot, hnodup⟩ := List.nodup_cons.1 hids
    have hlater : ∀ u ∈ r, u.id ≠ v.id := fun u hu he => hnot (List.mem_map.2 ⟨u, hu, he⟩)
    have hrest : ∀ u ∈ r, ∀ m, u.ward? = some m → m.status = none → m.pid = k.pid → u.id = w.id :=
      fun u hu => hlone u (List.mem_cons_of_mem _ hu)
    rcases collectIn_cons v r kern with ⟨a, asked, kern', m, hm, hopen, hasked, v', -, -, heq⟩ | ⟨hclosed, heq⟩
    · obtain ⟨n, hn'⟩ := hasked.eq
      rw [heq]
      rcases List.mem_cons.1 hw with rfl | hw
      · obtain rfl : k = m := Option.some.inj (hk.symm.trans hm)
        refine ⟨[], n, a, _, by rw [hn', List.nil_append], fun b => List.not_mem_nil,
          not_asked fun u hu m' hm' ho he => ?_⟩
        exact hlater u hu (hrest u hu m' hm' ho he)
      · have hne : m.pid ≠ k.pid := fun he =>
          hlater w hw (hlone v List.mem_cons_self m hm hopen he).symm
        obtain ⟨before, n', a', after, hasks, hb, ha⟩ := ih kern' hnodup hw hrest
        refine ⟨asked.map (fun x => (m.pid, x)) ++ before, n', a', after, by simp [hasks], fun b hmem => ?_, ha⟩
        rcases List.mem_append.1 hmem with hmem | hmem
        · obtain ⟨x, -, hx⟩ := List.mem_map.1 hmem
          exact hne (congrArg Prod.fst hx)
        · exact hb b hmem
    · rw [heq]
      rcases List.mem_cons.1 hw with rfl | hw
      · exact absurd hn (hclosed k hk)
      · exact ih kern hnodup hw hrest

/-- What a lone ward is told in a collection is told at first hand. -/
theorem firsthand_of_collect (ht : l.Tidy) (hk : k ∈ l.wards) (hn : k.status = none)
    (hlone : ∀ m ∈ l.wards, m.pid = k.pid → m.id = k.id) (hb : Bears h g k.pid log)
    (hc : collected k.pid log = false)
    (hk' : k' ∈ (l.collect kern).1.wards) (hid : k'.id = k.id) (hst : k'.status = some st) :
    Firsthand h g st (questions (l.asks kern) ++ log) := by
  obtain ⟨w, hw, hwk⟩ := mem_wards.1 hk
  have hlone' : ∀ v ∈ l.watches, ∀ m, v.ward? = some m → m.status = none → m.pid = k.pid → v.id = w.id := by
    intro v hv m hm _ hp
    rw [← ward?_id hm, ← ward?_id hwk]
    exact hlone m (mem_wards.2 ⟨v, hv, hm⟩) hp
  obtain ⟨before, n, a, after, hasks, hbefore, hafter⟩ :=
    asked_together kern ht.nodup hw hwk hn hlone'
  -- the status on the ward is that of the answer, as all other questions about the child were interrupted
  obtain ⟨hfinal, hstatus⟩ : a.isFinal = true ∧ statusOf a = some st := by
    rcases collect_ward hk' with ⟨hold, hne⟩ | ⟨m, hm, -, b, hbm, hint, rfl⟩
    · rw [ward_eq_of_id_eq ht hold hk hid] at hne
      exact absurd hn hne
    · obtain rfl : m = k := ward_eq_of_id_eq ht hm hk hid
      have hbm : (m.pid, b) ∈ (collectIn l.watches kern).2.1 := hbm
      rw [hasks] at hbm
      have hba : b = a := by
        rcases List.mem_append.1 hbm with hbm | hbm
        · rcases List.mem_append.1 hbm with hbm | hbm
          · exact absurd hbm (hbefore b)
          · obtain ⟨x, hx, hxb⟩ := List.mem_map.1 hbm
            cases hxb
            rcases List.mem_append.1 hx with hx | hx
            · exact absurd (List.eq_of_mem_replicate hx) hint
            · exact List.mem_singleton.1 hx
        · exact absurd hbm (hafter b)
      rw [← hba]
      exact ⟨isFinal_of_statusOf hst hint, hst⟩
  have hearlier : ∀ g' : Wait → Bool, g' (.failed 4) = false →
      ((before ++ (List.replicate n (Wait.failed 4)).map fun x => (k.pid, x)).any
        fun x => x.1 == k.pid && g' x.2) = false := by
    intro g' hg'
    refine List.any_eq_false.2 fun x hx => ?_
    rcases List.mem_append.1 hx with hx | hx
    · have hne : x.1 ≠ k.pid := fun he => hbefore x.2 (he ▸ hx)
      simp [hne]
    · obtain ⟨y, hy, rfl⟩ := List.mem_map.1 hx
      simp [List.eq_of_mem_replicate hy, hg']
  refine ⟨questions after, questions (before ++ (List.replicate n (Wait.failed 4)).map fun x => (k.pid, x)) ++ log,
    k.pid, a, ?_, hb.append fun _ _ _ => spawned_not_mem_questions, ?_, hfinal, hstatus⟩
  · rw [asks, collect]
    dsimp only
    rw [hasks]
    simp [questions]
  · rw [collected, heard_questions_append, hearlier _ rfl]
    exact hc

end Loop

namespace Machine

variable {o s t : Machine} {σ τ : Scene} {held : List Nat} {rs : List Reaping} {log : List Entry} {h g : Nat}

/-! ## One pass -/

/-- A pass ends with the kernel's answer, or it collects once more and runs what is ready. -/
theorem pass_cases (s : Machine) (b : Bool) : ∃ u : Machine, Loop.Alike s.collect.loop u.loop ∧ LoopOnly s u ∧
    ((∃ es v, u.journal = es ++ s.collect.journal ∧ (∀ e ∈ es, e.isPlain = true) ∧ u.control = .value v ∧
        s.pass b = u) ∨
      ∃ requests ms revents, u.journal = .polled requests ms (.ready revents) :: s.collect.journal ∧
        ((∃ v, s.pass b = u.collect.yield v) ∨
          s.pass b = u.collect.go (.dispatch (u.collect.loop.readyIds u.collect.kernel.now) u.collect.kernel.now
            false))) := by
  have halike : Loop.Alike s.collect.loop s.attentive.loop := Loop.alike_forgetFired s.collect.loop
  have hinformed : ∀ k revents, Loop.Alike s.collect.loop (s.informed b k revents).loop := fun k revents =>
    halike.trans (Loop.alike_record _ _)
  cases opening s b with
  | stalled hr ht h =>
    exact ⟨s.attentive.yield _, halike, (loopOnly_attentive s).yield _, .inl ⟨[], _, rfl, by simp, rfl, h⟩⟩
  | failed k code hk h =>
    exact ⟨(s.asking b k (.failed code)).yield _, halike, (loopOnly_asking s b k _).yield _,
      .inl ⟨[s.question b (.failed code)], _, rfl, by simp [question, Entry.isPlain], rfl, h⟩⟩
  | deadlock k hk h =>
    obtain ⟨es, hj, hes⟩ := journal_stopFromKernel (s.asking b k .deadlock)
    have hplain : ∀ e ∈ es ++ [s.question b .deadlock], e.isPlain = true := by
      intro e he
      rcases List.mem_append.1 he with he | he
      · rw [hes e he]
        rfl
      · rw [List.mem_singleton.1 he]
        rfl
    exact ⟨Machine.yield (s.asking b k .deadlock).stopFromKernel (.passed .empty),
      halike.trans (alike_stopFromKernel (s.asking b k .deadlock)), (loopOnly_asking s b k _).stopFromKernel.yield _,
      .inl ⟨_, _, hj.trans (List.append_assoc es [_] _).symm, hplain, rfl, h⟩⟩
  | quiet k revents hk hids h =>
    exact ⟨s.informed b k revents, hinformed k revents, loopOnly_informed s b k revents,
      .inr ⟨_, _, revents, rfl, .inl ⟨_, h⟩⟩⟩
  | chosen k revents ids hk hne hids h =>
    refine ⟨s.informed b k revents, hinformed k revents, loopOnly_informed s b k revents,
      .inr ⟨_, _, revents, rfl, .inr ?_⟩⟩
    rw [h, ← hids]
    rfl

/-- A child is asked about in passes only. -/
theorem pass_of_asked {p : Int} {a : Wait} (hm : .asked p a ∈ s.news) : ∃ b, s.control = .pass b := by
  by_contra hnot
  obtain ⟨es, hj, hno⟩ : ∃ es, s.step.journal = es ++ s.journal ∧ ∀ p a, Entry.asked p a ∉ es := by
    refine step_keeps (P := fun t => ∃ es, t.journal = es ++ s.journal ∧ ∀ p a, Entry.asked p a ∉ es)
      ⟨[], rfl, by simp⟩ fun u v he hu => ?_
    obtain ⟨es, hj, hno⟩ := hu
    have more : ∀ news : List Entry, v.journal = news ++ u.journal → (∀ p a, Entry.asked p a ∉ news) →
        ∃ es, v.journal = es ++ s.journal ∧ ∀ p a, Entry.asked p a ∉ es := by
      intro news hv hnew
      exact ⟨news ++ es, by rw [hv, hj, List.append_assoc],
        fun p a h => (List.mem_append.1 h).elim (hnew p a) (hno p a)⟩
    cases he with
    | aside ha =>
      obtain ⟨news, hv, hapart⟩ := ha.journal
      refine more news hv fun p a h => ?_
      cases hapart _ h
    | added priority src ha => exact more [_] rfl (by simp)
    | taken id now rest ran job l ho hl => exact more [_] rfl (by simp)
    | restored id cb ho => exact more [_] rfl (by simp)
    | ended id cb ho => exact more [_] rfl (by simp)
    | removed id ho => exact more [_] rfl (by simp)
    | collected ho => exact absurd ho hnot
    | _ => exact more [] rfl (by simp)
  rw [news_eq hj] at hm
  exact hno p a hm

/-! ## What is known -/

/-- The exit of this generation, be it parked, on its way or taken, was learnt at first hand. -/
structure Known (h g : Nat) (σ : Scene) (log : List Entry) : Prop where
  ward : ∀ k ∈ σ.machine.loop.own, ∀ st, k.callback = .reap h g → k.status = some st → Firsthand h g st log
  reaping : ∀ x ∈ σ.reapings, x.h = h → x.g = g → Firsthand h g x.status log
  reaped : (σ.machine.handle h).state = .reaped → (σ.machine.handle h).generation = g →
    ∀ st, (σ.machine.handle h).status = some st → Firsthand h g st log

/-- While this generation of the handle runs, no other watch is on its child. -/
def Sole (h g : Nat) (s : Machine) : Prop :=
  (s.handle h).generation = g → (s.handle h).state = .running →
    ∀ k ∈ s.loop.wards, (s.handle h).pid = some k.pid → (s.handle h).childWatch = some k.id

/-- The handle is as it was, as far as a reaped one goes. -/
def Settles (h : Nat) (s t : Machine) : Prop :=
  (t.handle h).state = .reaped → (t.handle h).generation = (s.handle h).generation ∧
    (t.handle h).status = (s.handle h).status ∧ (s.handle h).state = .reaped

theorem settles_of_handle (hh : t.handle h = s.handle h) : Settles h s t := by
  intro hr
  rw [hh] at hr ⊢
  exact ⟨rfl, rfl, hr⟩

theorem Known.keep {es : List Entry} (hk : Known h g σ log)
    (hown : ∀ k ∈ τ.machine.loop.own, ∀ st, k.callback = .reap h g → k.status = some st →
      k ∈ σ.machine.loop.own)
    (hrs : ∀ x ∈ τ.reapings, x ∈ σ.reapings) (hh : Settles h σ.machine τ.machine) :
    Known h g τ (es ++ log) := by
  refine ⟨fun k hm st hcb hst => (hk.ward k (hown k hm st hcb hst) st hcb hst).append es,
    fun x hx hxh hxg => (hk.reaping x (hrs x hx) hxh hxg).append es, fun hr hgen st hst => ?_⟩
  obtain ⟨hg, hs, hr'⟩ := hh hr
  exact (hk.reaped hr' (hg ▸ hgen) st (hs ▸ hst)).append es

theorem Known.taken {k : Ward} {st : ExitStatus} (time : Nat) (hk : Known h g ⟨s, held, rs⟩ log)
    (hw : k ∈ s.loop.wards)
    (hst : k.status = some st) :
    Known h g ⟨Machine.record { s with loop := s.loop.erase k.id } (.started time k.id (.child k.pid st)), held,
      k.callback.reapings k.pid st ++ rs⟩ (.started time k.id (.child k.pid st) :: log) := by
  refine ⟨fun m hm st' hcb hst' => ?_, fun x hx hxh hxg => ?_,
    fun hr hg st' hst' => (hk.reaped hr hg st' hst').append [_]⟩
  · exact (hk.ward m (mem_own_erase.1 hm).1 st' hcb hst').append [_]
  · rcases List.mem_append.1 hx with hx | hx
    · cases hcb : k.callback with
      | reap i j =>
        rw [hcb] at hx
        obtain rfl := List.mem_singleton.1 hx
        have hown : k ∈ s.loop.own := Loop.mem_own.2 ⟨hw, by rw [Ward.isOwn, hcb]⟩
        obtain ⟨rfl, rfl⟩ : i = h ∧ j = g := ⟨hxh, hxg⟩
        exact (hk.ward k hown st hcb hst).append [_]
      | _ =>
        rw [hcb] at hx
        cases hx
    · exact (hk.reaping x hx hxh hxg).append [_]

/-- What is known stays known, unless a child is asked about. -/
theorem Known.effect {news : List Entry} (hc : Custody σ log) (hk : Known h g σ log) (he : Effect o σ τ)
    (hj : τ.machine.journal = news ++ σ.machine.journal) :
    Known h g τ (news ++ log) ∨ ∃ p a, Entry.asked p a ∈ news := by
  rcases effect_cases he hc.sound with ⟨hq, -⟩ | hch
  · refine .inl (hk.keep (fun k hm _ _ _ => hq.own ▸ hm) hq.reapings fun hr => ?_)
    have hf := hq.handles h
    exact ⟨hf.generation, hf.status, hf.state ▸ hr⟩
  · cases hch with
    | @collected s _ _ =>
      obtain rfl := List.append_cancel_right ((journal_collect _).symm.trans hj)
      cases hasks : s.loop.asks s.kernel with
      | nil =>
        refine .inl (hk.keep (fun k hm st hcb hst => ?_) (fun x hx => hx) (settles_of_handle rfl))
        rcases own_collect hm with ⟨hold, -⟩ | ⟨m, -, -, a, ha, -⟩
        · exact hold
        · rw [hasks] at ha
          cases ha
      | cons x xs =>
        refine .inr ⟨x.1, x.2, ?_⟩
        exact List.mem_reverse.2 (List.mem_map.2 ⟨x, List.mem_cons_self, rfl⟩)
    | taken time k st hw hst =>
      obtain rfl : [_] = news := List.append_cancel_right hj
      exact .inl (hk.taken time hw hst)
    | @adopted s t _ _ i c e pid ha =>
      refine .inl (hk.keep (fun k hm st hcb hst => ?_) (fun x hx => hx) ?_)
      · rcases ha.mem_own.1 hm with hm | rfl
        · exact hm
        · cases hst
      · rcases ha.cases h with hsame | ⟨rfl, hl⟩
        · exact settles_of_handle hsame
        · obtain ⟨out, err, hlife, -⟩ := ha.life hl
          intro hr
          have hstate : (t.handle h).state = .running := congrArg Life.state hlife
          dsimp only at hr
          rw [hstate] at hr
          cases hr
    | @closed s t _ _ i hcl =>
      refine .inl (hk.keep (fun k hm st hcb hst => ?_) (fun x hx => hx) ?_)
      · rcases hcl.mem_own.1 hm with ⟨hm, -⟩ | ⟨p, -, rfl⟩
        · exact hm
        · cases hst
      · by_cases hi : h = i
        · subst hi
          intro hr
          have hstate : (t.handle h).state = .closed := congrArg Life.state hcl.handle
          dsimp only at hr
          rw [hstate] at hr
          cases hr
        · exact settles_of_handle (hcl.others h hi)
    | @reaped s _ _ i pid st hx hrun =>
      obtain rfl : [] = news := List.append_cancel_right hj
      refine .inl ⟨hk.ward, hk.reaping, ?_⟩
      by_cases hi : h = i
      · subst hi
        have hself := handle_mapHandle_self s (h := h)
          (fun x => { x with state := .reaped, status := some st, childWatch := none }) (lt_of_running hrun)
        dsimp only
        rw [hself]
        rintro - hg st' hst'
        cases hst'
        exact hk.reaping _ hx rfl hg
      · dsimp only
        rw [handle_mapHandle_of_ne s (h := i) (i := h) _ (.inl hi)]
        exact hk.reaped

/-! ## Passes -/

/-- A ward that reports to a handle is the one on its child. -/
theorem owner_of_ward {given : Nat → Prop} {left : Nat → Nat → Int → Prop} {k : Ward}
    (hacc : Accounts given left s.stage log) (ht : s.loop.Tidy) (hk : k ∈ s.loop.wards)
    (hcb : k.callback = .reap h g) :
    g = (s.handle h).generation ∧ (s.handle h).childWatch = some k.id ∧ (s.handle h).pid = some k.pid := by
  obtain ⟨w, hw, hwk⟩ := Loop.mem_wards.1 hk
  have hlook : s.loop.look k.id = some ⟨.child k.pid, some (.reap h g)⟩ := by
    rw [Loop.ward?_id hwk, Loop.look_of_mem ht hw, Loop.outline_of_ward hwk, hcb]
  obtain ⟨hg, hcw, p, hp, hform⟩ := hacc.ledger.owned _ _ _ (books_of_slot hlook)
  cases hform
  exact ⟨hg, hcw, hp⟩

theorem ward_of_collect {l : Loop Callback} {kern : Kernel} {k' : Ward} (hk' : k' ∈ (l.collect kern).1.wards) :
    ∃ k ∈ l.wards, k.id = k'.id ∧ k.pid = k'.pid ∧ k.callback = k'.callback := by
  rcases Loop.collect_ward hk' with ⟨hk, -⟩ | ⟨k, hk, -, a, -, -, rfl⟩
  · exact ⟨k', hk, rfl, rfl, rfl⟩
  · exact ⟨k, hk, rfl, rfl, rfl⟩

/-- Whoever asks about the child of this generation is the one ward of the handle. -/
def Lone (h g : Nat) (l : Loop Callback) : Prop :=
  ∀ k ∈ l.wards, k.callback = .reap h g → ∀ m ∈ l.wards, m.pid = k.pid → m.id = k.id

theorem Lone.collect {l : Loop Callback} (hl : Lone h g l) (kern : Kernel) : Lone h g (l.collect kern).1 := by
  intro k' hk' hcb m' hm' hp
  obtain ⟨k, hk, hkid, hkp, hkcb⟩ := ward_of_collect hk'
  obtain ⟨m, hm, hmid, hmp, -⟩ := ward_of_collect hm'
  rw [← hkid, ← hmid]
  exact hl k hk (hkcb.trans hcb) m hm (by rw [hmp, hp, hkp])

theorem Known.collect (hc : Custody ⟨s, held, rs⟩ log) (hk : Known h g ⟨s, held, rs⟩ log)
    (hl : Lone h g s.loop) :
    Known h g ⟨s.collect, held, rs⟩ (questions (s.loop.asks s.kernel) ++ log) := by
  refine ⟨fun k' hk' st hcb hst => ?_, fun x hx hxh hxg => (hk.reaping x hx hxh hxg).append _,
    fun hr hg st hst => (hk.reaped hr hg st hst).append _⟩
  rcases own_collect hk' with ⟨hold, -⟩ | ⟨k, hown, hn, a, ha, hne, rfl⟩
  · exact (hk.ward k' hold st hcb hst).append _
  · have hmem := (Loop.mem_own.1 hown).1
    exact Loop.firsthand_of_collect hc.sound.tidy hmem hn (hl k hmem hcb) ((hc.ward k hown h g hcb).1 hn)
      (hc.untold k hown h g hcb hn) (Loop.mem_own.1 hk').1 rfl hst

/-- After a pass all that it has been told of the handle's child is known. -/
theorem Known.pass (hc : Custody s.scene log) (hk : Known h g s.scene log) (hl : Lone h g s.loop) (b : Bool) :
    ∃ news, (s.pass b).journal = news ++ s.journal ∧ Known h g (s.pass b).scene (news ++ log) := by
  obtain ⟨u, halike, honly, hend⟩ := pass_cases s b
  have hown : u.loop.own = s.collect.loop.own := Loop.own_of_wards halike.wards
  have hhandle : ∀ i, u.handle i = s.handle i := fun i => by rw [handle, handle, honly.handles]
  have hc' : Custody ⟨s.collect, s.held, s.reapings⟩ (questions (s.loop.asks s.kernel) ++ log) := hc.collected
  have hk' : Known h g ⟨s.collect, s.held, s.reapings⟩ (questions (s.loop.asks s.kernel) ++ log) := hk.collect hc hl
  have hreapings : ∀ t : Machine, t.stack = s.stack → t.control.reapings = [] →
    ∀ x ∈ t.reapings, x ∈ s.reapings := by
    intro t hst hctl x hx
    rw [reapings, hctl, hst, List.nil_append] at hx
    exact List.mem_append_right _ hx
  rcases hend with ⟨es, v, hj, hplain, hv, heq⟩ | ⟨requests, ms, revents, hj, hend⟩
  · rw [heq]
    refine ⟨es ++ questions (s.loop.asks s.kernel), by rw [hj, journal_collect, List.append_assoc], ?_⟩
    rw [List.append_assoc]
    exact hk'.keep (fun k hm _ _ _ => hown ▸ hm) (hreapings u honly.stack (by rw [hv]; rfl))
      (settles_of_handle (hhandle h))
  · have hquiet : Quiet ⟨s.collect, s.held, s.reapings⟩ ⟨u, s.held, s.reapings⟩ :=
      quiet_of_own (halike.tidy hc'.sound.tidy) (Nat.le_of_eq halike.lastId.symm) hown honly.tags fun i =>
        .of_life (congrArg Handle.life (hhandle i))
    have haside : ∀ e ∈ [Entry.polled requests ms (.ready revents)], e.isAside = true := by
      simp [Entry.isAside, Entry.isPlain]
    have hcu := hc'.quiet hquiet haside
    have hku : Known h g ⟨u, s.held, s.reapings⟩
        ([.polled requests ms (.ready revents)] ++ (questions (s.loop.asks s.kernel) ++ log)) := hk'.keep
      (fun k hm _ _ _ => hown ▸ hm) (fun x hx => hx) (settles_of_handle (hhandle h))
    have hlu : Lone h g u.loop := by
      have hcol := hl.collect s.kernel
      unfold Lone at hcol ⊢
      rw [halike.wards]
      exact hcol
    have hlast := hku.collect hcu hlu
    have hjournal : u.collect.journal = (questions (u.loop.asks u.kernel) ++ [.polled requests ms (.ready revents)] ++
        questions (s.loop.asks s.kernel)) ++ s.journal := by
      rw [journal_collect, hj, journal_collect]
      simp
    refine ⟨questions (u.loop.asks u.kernel) ++ [.polled requests ms (.ready revents)] ++
      questions (s.loop.asks s.kernel), ?_, ?_⟩
    · rcases hend with ⟨v, heq⟩ | heq
      · rw [heq]
        exact hjournal
      · rw [heq]
        exact hjournal
    · have hlog : questions (u.loop.asks u.kernel) ++ [.polled requests ms (.ready revents)] ++
          questions (s.loop.asks s.kernel) ++ log = [] ++ (questions (u.loop.asks u.kernel) ++
            ([.polled requests ms (.ready revents)] ++ (questions (s.loop.asks s.kernel) ++ log))) := by simp
      rw [hlog]
      rcases hend with ⟨v, heq⟩ | heq
      · rw [heq]
        exact hlast.keep (fun k hm _ _ _ => hm) (hreapings _ honly.stack rfl) (settles_of_handle rfl)
      · rw [heq]
        exact hlast.keep (fun k hm _ _ _ => hm) (hreapings _ honly.stack rfl) (settles_of_handle rfl)

/-! ## Runs -/

theorem lone_of_sole {given : Nat → Prop} {left : Nat → Nat → Int → Prop}
    (hacc : Accounts given left s.stage log)
    (hc : Custody s.scene log) (hal : Sole h g s) : Lone h g s.loop := by
  intro k hk hcb m hm hp
  obtain ⟨hg, hcw, hpid⟩ := owner_of_ward hacc hc.sound.tidy hk hcb
  have hrun : (s.handle h).state = .running := ((hc.handle h).child k.id hcw).2.1
  have hmw := hal hg.symm hrun m hm (by rw [hp]; exact hpid)
  rw [hcw] at hmw
  exact (Option.some.inj hmw).symm

theorem Known.step {given : Nat → Prop} {left : Nat → Nat → Int → Prop} (hacc : Accounts given left s.stage log)
    (hc : Custody s.scene log) (hal : Sole h g s) (hk : Known h g s.scene log) :
    Known h g s.step.scene (s.news ++ log) := by
  by_cases hpass : ∃ b, s.control = .pass b
  · obtain ⟨b, hb⟩ := hpass
    have hstep : s.step = s.pass b := by rw [Machine.step, hb]
    obtain ⟨news, hj, hknown⟩ := hk.pass hc (lone_of_sole hacc hc hal) b
    rw [← hstep] at hj hknown
    rw [news_eq hj]
    exact hknown
  · obtain ⟨news, hj, -, es, hes, hknown⟩ := hc.effects
      (P := fun σ log' => ∃ es, log' = es ++ log ∧ (Known h g σ log' ∨ ∃ p a, Entry.asked p a ∈ es))
      ⟨[], rfl, .inl hk⟩
      (fun σ τ log' news hc' hp he hj => by
        obtain ⟨es, rfl, hknown | ⟨p, a, hm⟩⟩ := hp
        · refine ⟨news ++ es, by rw [List.append_assoc], ?_⟩
          rcases hknown.effect hc' he hj with hknown | ⟨p, a, hm⟩
          · exact .inl hknown
          · exact .inr ⟨p, a, List.mem_append_left _ hm⟩
        · exact ⟨news ++ es, by rw [List.append_assoc], .inr ⟨p, a, List.mem_append_right _ hm⟩⟩)
      (step_effects s hc.sound.tidy)
    obtain rfl := List.append_cancel_right hes
    rw [news_eq hj]
    refine hknown.resolve_right ?_
    rintro ⟨p, a, hm⟩
    exact hpass (pass_of_asked (by rw [news_eq hj]; exact hm))

theorem known_initial (hi : Initial s) : Known h g s.scene [] := by
  have hempty : s.loop.watches = [] ∧ s.reapings = [] ∧ (s.handle h).state ≠ .reaped := by
    cases hi with
    | fresh config tick environ kernel logging => exact ⟨rfl, rfl, nofun⟩
    | forRun outer spec =>
      refine ⟨rfl, rfl, ?_⟩
      cases h with
      | zero => nofun
      | succ h => cases h <;> nofun
  obtain ⟨hwatches, hreapings, hstate⟩ := hempty
  have hown : s.loop.own = [] := by rw [Loop.own, Loop.wards, hwatches]; rfl
  refine ⟨fun k hk => ?_, fun x hx => ?_, fun hr => absurd hr hstate⟩
  · have hk : k ∈ s.loop.own := hk
    rw [hown] at hk
    cases hk
  · have hx : x ∈ s.reapings := hx
    rw [hreapings] at hx
    cases hx

theorem Between.own (hb : Between s t) : t.loop.own = s.loop.own := by
  rw [Loop.own, Loop.own, Loop.wards, Loop.wards, hb.watches]

theorem Between.handle (hb : Between s t) (i : Nat) : t.handle i = s.handle i := by
  rw [Machine.handle, Machine.handle, hb.handles]

theorem Known.between (hk : Known h g s.scene log) (hb : Between s t) : Known h g t.scene log := by
  have hrs : t.reapings = s.reapings := hb.reapings
  have hkept : Known h g t.scene ([] ++ log) := hk.keep (fun k hm _ _ _ => hb.own ▸ hm)
    (fun x (hx : x ∈ t.reapings) => by rwa [hrs] at hx) (settles_of_handle (hb.handle h))
  exact hkept

/-- As long as no other watch is on its child, a handle learns the end of its child at first hand. -/
theorem known_run (hr : Run (Sole h g) s log) : Known h g s.scene log := by
  have hboth : Run (Sole h g) s log ∧ Known h g s.scene log := by
    refine Run.invariant (P := fun s log => Run (Sole h g) s log ∧ Known h g s.scene log)
      (fun s hi => ⟨Run.init hi, known_initial hi⟩)
      (fun s log t log' ⟨hrun, hk⟩ hm => ⟨hrun.move hm, ?_⟩) hr
    obtain ⟨past, ht⟩ := trail_of_run hrun
    rcases move_cases hm with ⟨hal, rfl, rfl⟩ | ⟨hb, rfl⟩
    · exact hk.step (accounts_trail ht) (custody_run hrun) hal
    · exact hk.between hb
  exact hboth.2

end Machine

end Overseer
