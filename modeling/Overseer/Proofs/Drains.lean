import Overseer.Proofs.Deadlines
import Overseer.Proofs.OutputDeeds
import Overseer.Proofs.Spans

/-!
# How long a drain reads

A drain of a captured stream reads until the kernel has nothing more for it, and tells the subscribers
of the handle of each chunk before it reads on.  It has no measure of its own: every read but the last
has brought bytes or was interrupted, so that the child says how many reads there are.

    reads  ≤  bytes brought + interruptions + 1        bytes brought  ≤  chunk size · reads

What subscribers do meanwhile does not count: the reads of the drain itself are those made upon the
frames with which it has begun.  A child that writes one byte between two reads keeps the drain going,
and time passes the deadlines of the calls that wait beneath it without being looked at.

Main statements: `drain_reads`, `Line.At.reads_on`.
-/

namespace Overseer

open Supervisor
open Kernel (Stream)
open Os (Failure)

namespace Kernel

/-- A read of this stream will not fail, and its writer is still there. -/
structure Open (pid : Int) (st : Stream) (k : Kernel) (o : Output) : Prop where
  faultless : k.faults.read = []
  output : (k.child? pid).bind (·.stream st) = some o
  writerOpen : o.writerOpen = true

variable {k : Kernel} {pid : Int} {st : Stream} {o : Output}

theorem stream_mapStream (c : Child) (st : Stream) (f : Output → Output) :
    (c.mapStream st f).stream st = (c.stream st).map f := by
  cases st <;> rfl

theorem Open.mapStream (ho : Open pid st k o) {f : Output → Output} (hf : (f o).writerOpen = true) :
    Open pid st (k.mapChild pid fun c => c.mapStream st f) (f o) := by
  refine ⟨ho.faultless, ?_, hf⟩
  obtain ⟨c, hc, hs⟩ := Option.bind_eq_some_iff.1 ho.output
  have hpid : c.pid = pid := by simpa using List.find?_some hc
  rw [child?_mapChild _ _ _ _ fun c => by cases st <;> rfl, hc, Option.map_some, Option.bind_some, hpid]
  simp [stream_mapStream, hs]

/-- Bytes that are there are read. -/
theorem Open.read (ho : Open pid st k o) {size : Nat} (hsize : 0 < size) (hbytes : o.buffer ≠ []) :
    ∃ b bs k' o', k.read pid st size = (.ok (b :: bs), k') ∧ Open pid st k' o' ∧ k'.now = k.now := by
  obtain ⟨b, rest, hb⟩ := List.exists_cons_of_ne_nil hbytes
  obtain ⟨n, rfl⟩ := Nat.exists_eq_succ_of_ne_zero (Nat.pos_iff_ne_zero.1 hsize)
  have hfault : k.fault .read = (none, k) := by
    unfold fault
    rw [show k.faults.queue .read = [] from ho.faultless]
  have hleft := ho.mapStream (f := fun o => { o with buffer := o.buffer.drop (n + 1) }) ho.writerOpen
  refine ⟨b, rest.take n, _, _, ?_, hleft, rfl⟩
  unfold Kernel.read
  rw [hfault]
  dsimp only
  rw [ho.output]
  simp [hb]

/-- The child writes a byte, and time passes. -/
theorem Open.emit (ho : Open pid st k o) (b : UInt8) (ns : Nat) :
    ∃ o', Open pid st ((k.apply (.child pid (.emit st [b]))).advance ns) o' ∧ o'.buffer ≠ [] := by
  have hmore := ho.mapStream (f := fun o => if o.writerOpen then { o with buffer := o.buffer ++ [b] } else o)
    (by simp [ho.writerOpen])
  refine ⟨_, ⟨hmore.faultless, hmore.output, hmore.writerOpen⟩, ?_⟩
  simp [ho.writerOpen]

end Kernel

namespace Supervisor

/-- What the kernel has answered, if this is the entry of a read. -/
def Entry.answer? : Entry → Option (Except Int Bytes)
  | read _ _ _ r => some r
  | _ => none

def isInterruption : Except Int Bytes → Bool
  | .ok _ => false
  | .error e => e == Failure.interrupted

/-- After bytes, and after an interruption, a drain reads again. -/
def readsOn : Except Int Bytes → Bool
  | .ok bytes => !bytes.isEmpty
  | .error e => e == Failure.interrupted

/-- How many bytes these answers have brought. -/
def amount (rs : List (Except Int Bytes)) : Nat := (rs.flatMap answerBytes).length

end Supervisor

namespace Machine

/-- The answers that the step from a machine gets from the kernel, if its stack is as high as this. -/
def readsOf (height : Nat) (m : Machine) : List (Except Int Bytes) :=
  if m.stack.length = height then m.news.filterMap Entry.answer? else []

/-- The answers of all reads, the last one first, as is the last machine stepped from. -/
def reads (height : Nat) (past : List Machine) : List (Except Int Bytes) := past.flatMap (readsOf height)

/-- Where a drain upon the frames `K` is: before its next read, telling of bytes or of a failure, or at its end. -/
inductive Draining (h : Nat) (st : Stream) (g : Nat) (K : List Frame) (past : List Machine) (s : Machine) : Prop
  | reading (hc : s.control = .drain h st g) (hst : s.stack = K) (hon : ∀ r ∈ reads K.length past, readsOn r = true)
  | telling (A : List Frame) (hst : s.stack = A ++ .drained h st g :: K)
      (hon : ∀ r ∈ reads K.length past, readsOn r = true)
  | failing (A : List Frame) (hst : s.stack = A ++ .drainFailed :: K)
      (hon : ∀ r ∈ (reads K.length past).tail, readsOn r = true)
  | done (b : Bool) (hc : s.control = .value (.again b)) (hst : s.stack = K)
      (hon : ∀ r ∈ (reads K.length past).tail, readsOn r = true)

/-- What a step of a drain does, with the answers that it gets: it finds the stream lost, or it reads once,
and then reads again, tells of bytes, tells of a failure, or ends. -/
inductive DrainStep (h : Nat) (st : Stream) (g : Nat) (s t : Machine) : List (Except Int Bytes) → Prop
  | lost (hc : t.control = .value (.again false)) (hst : t.stack = s.stack) : DrainStep h st g s t []
  | again {r : Except Int Bytes} (hon : readsOn r = true) (hc : t.control = .drain h st g) (hst : t.stack = s.stack) :
      DrainStep h st g s t [r]
  | tells {r : Except Int Bytes} (hon : readsOn r = true) (hst : t.stack = .drained h st g :: s.stack) :
      DrainStep h st g s t [r]
  | fails {r : Except Int Bytes} (hst : t.stack = .drainFailed :: s.stack) : DrainStep h st g s t [r]
  | ends {r : Except Int Bytes} (b : Bool) (hc : t.control = .value (.again b)) (hst : t.stack = s.stack) :
      DrainStep h st g s t [r]

/-- A child writes a byte to a captured stream, and time passes; nothing else happens. -/
def ChildWrites (s t : Machine) : Prop :=
  ∃ pid st b ns, t = s.withKernel ((s.kernel.apply (.child pid (.emit st [b]))).advance ns)

/-- A captured stream of the child of a handle, in chunks of some size. -/
structure Line where
  h : Nat
  g : Nat
  st : Stream
  pipe : Pipe
  config : Config

/-- The line is open and nobody is told of its events; this is in its outbox, and this is next upon these frames. -/
structure Line.At (l : Line) (box : List Event) (emitting : Bool) (next : Control) (K : List Frame) (k : Kernel)
    (s : Machine) : Prop where
  generation : (s.handle l.h).generation = l.g
  pipe : (s.handle l.h).pipe l.st = some l.pipe
  subscribers : (s.handle l.h).subscribers = []
  outbox : (s.handle l.h).outbox = box
  emitting : (s.handle l.h).emitting = emitting
  config : s.config = l.config
  control : s.control = next
  stack : s.stack = K
  kernel : s.kernel = k

variable {h g height : Nat} {st : Stream} {K : List Frame} {past : List Machine} {s t : Machine}
  {log log' : List Entry}
  {r : Except Int Bytes} {rs : List (Except Int Bytes)} {x y : Machine × List Entry}

/-! ## Counting reads -/

theorem readsOf_of_news (es : List Entry) (hst : s.stack.length = height) (hj : s.step.journal = es ++ s.journal) :
    readsOf height s = es.filterMap Entry.answer? := by
  rw [readsOf, if_pos hst, news_eq hj]

theorem readsOf_of_above (hst : s.stack.length ≠ height) : readsOf height s = [] := if_neg hst

theorem reads_cons : reads height (s :: past) = readsOf height s ++ reads height past := rfl

theorem amount_cons (r : Except Int Bytes) (rs : List (Except Int Bytes)) :
    amount (r :: rs) = (answerBytes r).length + amount rs := List.length_append

/-- Each read after which a drain reads again has brought a byte or was an interruption. -/
theorem length_le_amount (hon : ∀ r ∈ rs, readsOn r = true) :
    rs.length ≤ amount rs + rs.countP isInterruption := by
  induction rs with
  | nil => exact Nat.zero_le _
  | cons r rs ih =>
    have hrest := ih fun r' hr' => hon r' (List.mem_cons_of_mem _ hr')
    have hr := hon r List.mem_cons_self
    rw [List.length_cons, List.countP_cons, amount_cons]
    cases r with
    | ok bytes =>
      have hpos : 0 < bytes.length := List.length_pos_iff.2 (by simpa [readsOn] using hr)
      simp only [answerBytes]
      omega
    | error e =>
      have hinterrupted : isInterruption (.error e) = true := hr
      rw [if_pos hinterrupted]
      omega

theorem length_le_of_tail (hon : ∀ r ∈ rs.tail, readsOn r = true) :
    rs.length ≤ amount rs + rs.countP isInterruption + 1 := by
  cases rs with
  | nil => exact Nat.zero_le _
  | cons r rs =>
    have hrest := length_le_amount hon
    rw [List.tail_cons] at hrest
    rw [List.length_cons, List.countP_cons, amount_cons]
    omega

theorem amount_le {n : Nat} (hsize : ∀ r ∈ rs, (answerBytes r).length ≤ n) : amount rs ≤ n * rs.length := by
  induction rs with
  | nil => exact Nat.zero_le _
  | cons r rs ih =>
    have hfirst := hsize r List.mem_cons_self
    have hrest := ih fun r' hr' => hsize r' (List.mem_cons_of_mem _ hr')
    rw [amount_cons, List.length_cons, Nat.mul_succ]
    omega

/-! ## One read -/

/-- After a read that ends it, a stream is let go of. -/
theorem letGo_spec (s : Machine) (k : Kernel) (r : Except Int Bytes) (n : Notice) (h g : Nat) (st : Stream) :
    ∃ es, ((((s.withKernel k).record (.read h g st r)).note n).releaseStream h st).journal = es ++ s.journal ∧
      es.filterMap Entry.answer? = [r] ∧
      ((((s.withKernel k).record (.read h g st r)).note n).releaseStream h st).stack = s.stack := by
  have hstack := (stack_releaseStream (((s.withKernel k).record (.read h g st r)).note n) h st).trans (stack_note _ n)
  obtain ⟨es, hes, hone⟩ : ∃ es, (((s.withKernel k).record (.read h g st r)).note n).journal = es ++ s.journal ∧
      es.filterMap Entry.answer? = [r] := by
    unfold note
    split
    · exact ⟨[_, _], rfl, rfl⟩
    · exact ⟨[_], rfl, rfl⟩
  unfold releaseStream at hstack ⊢
  split at hstack
  · exact ⟨es, hes, hone, hstack⟩
  · exact ⟨.removed _ _ :: es, congrArg (_ :: ·) hes, hone, hstack⟩

theorem drain_cases (s : Machine) (h : Nat) (st : Stream) (g : Nat) :
    ∃ es rs, (s.drain h st g).journal = es ++ s.journal ∧ es.filterMap Entry.answer? = rs ∧
      DrainStep h st g s (s.drain h st g) rs ∧ ∀ r ∈ rs, (answerBytes r).length ≤ s.config.chunk := by
  unfold drain
  dsimp only
  by_cases hgen : (s.handle h).generation = g
  · rw [if_neg (not_not_intro hgen)]
    cases hp : (s.handle h).pipe st with
    | none => exact ⟨[], _, rfl, rfl, .lost rfl rfl, List.forall_mem_nil _⟩
    | some p =>
      dsimp only
      generalize hr : s.kernel.read p.pid st s.config.chunk = answer
      obtain ⟨r, k⟩ := answer
      cases r with
      | ok bytes =>
        have hle : bytes.length ≤ s.config.chunk := Kernel.length_read (by rw [hr])
        have hsize : ∀ r ∈ [Except.ok bytes], (answerBytes r).length ≤ s.config.chunk :=
          List.forall_mem_singleton.2 hle
        cases bytes with
        | nil =>
          obtain ⟨es, hj, hone, hstack⟩ := letGo_spec s k (.ok []) (.eof st) h g st
          exact ⟨es, _, hj, hone, .ends false rfl hstack, hsize⟩
        | cons b rest => exact ⟨[_], _, rfl, rfl, .tells rfl rfl, hsize⟩
      | error e =>
        have hsize : ∀ r ∈ [Except.error e], (answerBytes r).length ≤ s.config.chunk :=
          List.forall_mem_singleton.2 (Nat.zero_le _)
        dsimp only
        by_cases hi : e = Failure.interrupted
        · rw [if_pos hi]
          exact ⟨[_], _, rfl, rfl, .again (by simp [readsOn, hi]) rfl rfl, hsize⟩
        · rw [if_neg hi]
          by_cases hw : e = Failure.wouldBlock
          · rw [if_pos hw]
            exact ⟨[_], _, rfl, rfl, .ends true rfl rfl, hsize⟩
          · rw [if_neg hw]
            obtain ⟨es, hj, hone, hstack⟩ := letGo_spec s k (.error e) (.readFailed st (.code e)) h g st
            exact ⟨es, _, hj, hone, .fails (congrArg _ hstack), hsize⟩
  · rw [if_pos hgen]
    exact ⟨[], _, rfl, rfl, .lost rfl rfl, List.forall_mem_nil _⟩

theorem drainStep (hc : s.control = .drain h st g) (hst : s.stack.length = height) :
    DrainStep h st g s s.step (readsOf height s) ∧
    ∀ r ∈ readsOf height s, (answerBytes r).length ≤ s.config.chunk := by
  have hstep : s.step = s.drain h st g := by rw [step, hc]
  obtain ⟨es, rs, hj, hrs, hdrain⟩ := drain_cases s h st g
  rw [← hstep] at hj hdrain
  rw [readsOf_of_news es hst hj, hrs]
  exact hdrain

theorem reading_step (hc : s.control = .drain h st g) (hst : s.stack = K)
    (hon : ∀ r ∈ reads K.length past, readsOn r = true) : Draining h st g K (s :: past) s.step := by
  have hall : ∀ {r}, readsOn r = true → ∀ r' ∈ r :: reads K.length past, readsOn r' = true :=
    fun hr => List.forall_mem_cons.2 ⟨hr, hon⟩
  have hheight : s.stack.length = K.length := by rw [hst]
  obtain ⟨hdrain, -⟩ := drainStep hc hheight
  have hreads : reads K.length (s :: past) = readsOf K.length s ++ reads K.length past := reads_cons
  generalize readsOf K.length s = rs at hdrain hreads
  subst hst
  cases hdrain with
  | lost hc' hst' =>
    refine .done false hc' hst' fun r hr => ?_
    rw [hreads] at hr
    exact hon r (List.mem_of_mem_tail hr)
  | again hr hc' hst' => exact .reading hc' hst' (hreads ▸ hall hr)
  | tells hr hst' => exact .telling [] hst' (hreads ▸ hall hr)
  | fails hst' => exact .failing [] hst' (hreads ▸ hon)
  | ends b hc' hst' => exact .done b hc' hst' (hreads ▸ hon)

/-- What is done above a drain is no read of its own, and its frame is taken up by a unit only. -/
theorem above_step (past : List Machine) {f : Frame} {A : List Frame} (hst : s.stack = A ++ f :: K) :
    reads K.length (s :: past) = reads K.length past ∧ ((∃ A', s.step.stack = A' ++ f :: K) ∨
      ∃ v, s.control = .value v ∧ s.stack = f :: K ∧ s.step = resume { s with stack := K } f v) := by
  constructor
  · have hhigher : s.stack.length ≠ K.length := by
      rw [hst, List.length_append, List.length_cons]
      omega
    rw [reads_cons, readsOf_of_above hhigher, List.nil_append]
  · cases hret : returned (f :: K).length s with
    | false =>
      obtain ⟨A', hA'⟩ := suffix_step ⟨A, hst.symm⟩ hret
      exact .inl ⟨A', hA'.symm⟩
    | true =>
      obtain ⟨⟨v, hv⟩, hbare⟩ := value_of_returned ⟨A, hst.symm⟩ hret
      exact .inr ⟨v, hv, hbare, step_value hv hbare⟩

theorem draining_step (hd : Draining h st g K past s) (hret : returned K.length s = false) :
    Draining h st g K (s :: past) s.step := by
  cases hd with
  | reading hc hst hon => exact reading_step hc hst hon
  | telling A hst hon =>
    obtain ⟨hsame, ⟨A', hst'⟩ | ⟨v, -, -, hstep⟩⟩ := above_step past hst
    · exact .telling A' hst' (by rwa [hsame])
    · rw [hstep]
      cases v with
      | unit => exact .reading rfl rfl (by rwa [hsame])
      | _ => exact .telling [] rfl (by rwa [hsame])
  | failing A hst hon =>
    obtain ⟨hsame, ⟨A', hst'⟩ | ⟨v, -, -, hstep⟩⟩ := above_step past hst
    · exact .failing A' hst' (by rwa [hsame])
    · rw [hstep]
      cases v with
      | unit => exact .done false rfl rfl (by rwa [hsame])
      | _ => exact .failing [] rfl (by rwa [hsame])
  | done b hc hst hon => cases (returned_of_value hc hst).symm.trans hret

theorem draining_lull (hd : Draining h st g K past s) (hl : Lull s t) : Draining h st g K past t := by
  cases hd with
  | reading hc hst hon => exact .reading (hl.control_of hc (by simp)) (hl.stack.trans hst) hon
  | telling A hst hon => exact .telling A (hl.stack.trans hst) hon
  | failing A hst hon => exact .failing A (hl.stack.trans hst) hon
  | done b hc hst hon => exact .done b (hl.control_of hc (by simp)) (hl.stack.trans hst) hon

/-- A machine at rest has no drain that has not returned. -/
theorem not_idle_of_draining (hd : Draining h st g K past s) (hret : returned K.length s = false) :
    s.isIdle = false := by
  rw [Bool.eq_false_iff]
  intro hi
  obtain ⟨⟨v, hv⟩, hnil⟩ := control_of_isIdle hi
  cases hd with
  | reading hc => rw [hv] at hc; cases hc
  | telling A hst => rw [hnil] at hst; simp at hst
  | failing A hst => rw [hnil] at hst; simp at hst
  | done b hc hst => cases (returned_of_value hc hst).symm.trans hret

/-! ## The whole drain -/

/-- A read of the drain itself brings no more than a chunk. -/
theorem size_le_of_draining (hd : Draining h st g K past s) (hret : returned K.length s = false) :
    ∀ r ∈ readsOf K.length s, (answerBytes r).length ≤ s.config.chunk := by
  have above : ∀ {f A}, s.stack = A ++ f :: K → readsOf K.length s = [] := fun {f A} hst =>
    readsOf_of_above (by rw [hst, List.length_append, List.length_cons]; omega)
  intro r hr
  cases hd with
  | reading hc hst => exact (drainStep hc (by rw [hst])).2 r hr
  | telling A hst => rw [above hst] at hr; cases hr
  | failing A hst => rw [above hst] at hr; cases hr
  | done b hc hst => cases (returned_of_value hc hst).symm.trans hret

theorem draining_span {R : Machine → Machine → Prop} (hr : Run (fun _ => True) x.1 x.2)
    (hx : Draining h st g K [] x.1) (hspan : Span R (fun _ => True) K.length x past y) :
    Draining h st g K past y.1 ∧ y.1.config = x.1.config ∧
      ∀ r ∈ reads K.length past, (answerBytes r).length ≤ x.1.config.chunk := by
  induction hspan with
  | begun => exact ⟨hx, rfl, List.forall_mem_nil _⟩
  | step hs _ hret ih =>
    obtain ⟨hd, hconfig, hsize⟩ := ih
    obtain ⟨trail, ht⟩ := trail_of_run (hs.run hr)
    refine ⟨draining_step hd hret, (config_step ht).trans hconfig, fun r hr => ?_⟩
    rcases List.mem_append.1 hr with hnew | hold
    · have hle := size_le_of_draining hd hret r hnew
      rwa [hconfig] at hle
    · exact hsize r hold
  | pause _ hret hm _ ih =>
    obtain ⟨hd, hconfig, hsize⟩ := ih
    have hl := (lull_of_move hm (not_idle_of_draining hd hret)).1
    exact ⟨draining_lull hd hl, hl.config.trans hconfig, hsize⟩

theorem Draining.tail (hd : Draining h st g K past s) : ∀ r ∈ (reads K.length past).tail, readsOn r = true := by
  cases hd with
  | reading hc hst hon => exact fun r hr => hon r (List.mem_of_mem_tail hr)
  | telling A hst hon => exact fun r hr => hon r (List.mem_of_mem_tail hr)
  | failing A hst hon => exact hon
  | done b hc hst hon => exact hon

/-- **A drain reads as often as its child makes it.**  Whatever the kernel answers and whatever callbacks do
meanwhile, every read but the last has brought bytes or was interrupted, so that there are at most as many
reads as bytes and interruptions, and one more.  After any other answer the drain reads no more: it is at its
end, or tells its subscribers of a failure first, and when the callback of a stream has ended, the loop goes
on with the watches that are ready. -/
theorem drain_reads (hr : Run (fun _ => True) x.1 x.2) (hc : x.1.control = .drain h st g)
    (hspan : Span (fun _ _ => True) (fun _ => True) x.1.stack.length x past y) :
    (∀ r ∈ (reads x.1.stack.length past).tail, readsOn r = true) ∧
    (reads x.1.stack.length past).length ≤
      amount (reads x.1.stack.length past) + (reads x.1.stack.length past).countP isInterruption + 1 ∧
    amount (reads x.1.stack.length past) ≤ x.1.config.chunk * (reads x.1.stack.length past).length ∧
    (∀ r ∈ (reads x.1.stack.length past).head?, readsOn r = false →
      (∃ b, y.1.control = .value (.again b) ∧ y.1.stack = x.1.stack) ∨
      ∃ A, y.1.stack = A ++ .drainFailed :: x.1.stack) ∧
    ∀ b id cb ids now K, y.1.control = .value (.again b) → y.1.stack = x.1.stack →
      x.1.stack = .settle id cb :: .dispatch ids now :: K →
      y.1.step.step.control = .dispatch ids now true ∧ y.1.step.step.stack = K := by
  obtain ⟨hd, -, hsize⟩ := draining_span hr (.reading hc rfl (List.forall_mem_nil _)) hspan
  refine ⟨hd.tail, length_le_of_tail hd.tail, amount_le hsize, fun r hlast hoff => ?_, ?_⟩
  · have hmem : r ∈ reads x.1.stack.length past := List.mem_of_head? hlast
    cases hd with
    | reading hc hst hon => exact absurd (hon r hmem) (by simp [hoff])
    | telling A hst hon => exact absurd (hon r hmem) (by simp [hoff])
    | failing A hst hon => exact .inr ⟨A, hst⟩
    | done b hc hst hon => exact .inl ⟨b, hc, hst⟩
  · intro b id cb ids now K hvalue hsame hstack
    have hsettled : y.1.step = settle { y.1 with stack := .dispatch ids now :: K } id cb b :=
      step_value hvalue (hsame.trans hstack)
    have hcontrol : y.1.step.control = .value .unit := by rw [hsettled]; rfl
    have hbelow : y.1.step.stack = .dispatch ids now :: K := by rw [hsettled]; exact stack_settle ..
    rw [step_value hcontrol hbelow]
    exact ⟨rfl, rfl⟩

/-- The child of a machine has written three bytes, and the next read is going to be interrupted. -/
def filled : Machine × List Entry :=
  carry (carry (carry (.fresh { Config.standard with chunk := 2 } 10000000 [] (.fresh true), [])
    (.spawn "a" (.ofArgs ["/bin/echo"]) ⟨.standard, []⟩ none) 1)
    (.event (.child 4001 (.emit .out [97, 98, 99]))) 1)
    (.event (.fault .read [Failure.interrupted])) 1

/-- The bytes are about to be drained in chunks of two. -/
def pouring : Machine × List Entry := carry filled (.iterate false) 4

/-- The drain up to its end. -/
def poured : List Machine × Machine × List Entry := tramp 12 ([], pouring)

theorem drain_reads_pouring : Run (fun _ => True) pouring.1 pouring.2 ∧ pouring.1.control = .drain 0 .out 1 ∧
    reads 3 poured.1 = [.error 11, .ok [99], .ok [97, 98], .error 4] ∧ 4 ≤ 3 + 1 + 1 ∧ 3 ≤ 2 * 4 ∧
    poured.2.1.control = .value (.again true) ∧ poured.2.1.step.step.control = .dispatch [2] 0 true := by
  have hfilled : Run (fun _ => True) filled.1 filled.2 :=
    Run.carry (Run.carry (Run.carry
      (Run.init (.fresh { Config.standard with chunk := 2 } 10000000 [] (.fresh true) true))
      rfl fun _ _ => trivial) (by decide) fun _ _ => trivial) (by decide) fun _ _ => trivial
  have hrun : Run (fun _ => True) pouring.1 pouring.2 := hfilled.carry (by decide) fun _ _ => trivial
  have hspan : Span (fun _ _ => True) (fun _ => True) 3 pouring poured.1 poured.2 :=
    Span.tramp (z := ([], pouring)) .begun (fun _ _ => trivial) (by decide +kernel)
  have hreads : reads 3 poured.1 = [.error 11, .ok [99], .ok [97, 98], .error 4] := rfl
  have hc : pouring.1.control = .drain 0 .out 1 := rfl
  have hdone : poured.2.1.control = .value (.again true) := rfl
  have hstack : pouring.1.stack = [.settle 1 (.stream 0 .out 1), .dispatch [2] 0, .iterate] := rfl
  have hback : poured.2.1.stack = [.settle 1 (.stream 0 .out 1), .dispatch [2] 0, .iterate] := rfl
  obtain ⟨-, hcount, hamount, -, hloop⟩ := drain_reads hrun hc hspan
  have hcount : (reads 3 poured.1).length ≤
    amount (reads 3 poured.1) + (reads 3 poured.1).countP isInterruption + 1 := hcount
  have hamount : amount (reads 3 poured.1) ≤ 2 * (reads 3 poured.1).length := hamount
  rw [hreads] at hcount hamount
  exact ⟨hrun, hc, hreads, hcount, hamount, hdone,
    (hloop true _ _ [2] 0 _ hdone (hback.trans hstack.symm) hstack).1⟩

/-! ## A child that goes on writing -/

section

variable {l : Line} {box rest : List Event} {emitting : Bool} {next : Control} {k k' : Kernel} {e : Event} {b : UInt8}
  {bs : Bytes}

namespace Line.At

theorem go (ha : l.At box emitting next K k s) (next' : Control) : l.At box emitting next' K k (s.go next') :=
  { ha with control := rfl }

theorem record (ha : l.At box emitting next K k s) (entry : Entry) : l.At box emitting next K k (s.record entry) :=
  { ha with }

theorem mapHandle (ha : l.At box emitting next K k s) (f : Handle → Handle)
    (hf : ∀ x, (f x).life = x.life ∧ (f x).subscribers = x.subscribers) {box' : List Event} {emitting' : Bool}
    (hbox : (f (s.handle l.h)).outbox = box') (hemitting : (f (s.handle l.h)).emitting = emitting') :
    l.At box' emitting' next K k (s.mapHandle l.h f) := by
  have hsame : (s.mapHandle l.h f).handle l.h = f (s.handle l.h) := by
    rw [handle_mapHandle, if_pos ⟨rfl, lt_of_pipe ha.pipe⟩]
  obtain ⟨hlife, hsubs⟩ := hf (s.handle l.h)
  rw [← hsame] at hlife hsubs hbox hemitting
  exact ⟨(congrArg (·.generation) hlife).trans ha.generation, (pipe_of_life hlife l.st).trans ha.pipe,
    hsubs.trans ha.subscribers, hbox, hemitting, ha.config, ha.control, ha.stack, ha.kernel⟩

theorem busy (ha : l.At box emitting next K k s) (hnext : ∀ v, next ≠ .value v) (depth : Nat) :
    returned depth s = false := by
  unfold returned
  split
  · next v hv => exact absurd (ha.control.symm.trans hv) (hnext v)
  · rfl

/-- The drain reads, and goes on to tell of what it has read. -/
theorem read (ha : l.At [] false (.drain l.h l.st l.g) K k s)
    (hread : k.read l.pipe.pid l.st l.config.chunk = (.ok (b :: bs), k')) :
    l.At [] false (.emit l.h (.chunk l.st (b :: bs))) (.drained l.h l.st l.g :: K) k' s.step ∧
      readsOf K.length s = [.ok (b :: bs)] := by
  have hstep : s.step = (((s.withKernel k').record (.read l.h l.g l.st (.ok (b :: bs)))).push
      (.drained l.h l.st l.g)).go (.emit l.h (.chunk l.st (b :: bs))) := by
    rw [step, ha.control]
    show s.drain l.h l.st l.g = _
    unfold drain
    dsimp only
    rw [if_neg (not_not_intro ha.generation), ha.pipe]
    dsimp only
    rw [ha.kernel, ha.config, hread]
  refine ⟨?_, readsOf_of_news [.read l.h l.g l.st (.ok (b :: bs))] (by rw [ha.stack]) (by rw [hstep]; rfl)⟩
  rw [hstep]
  exact { ha with control := rfl, stack := congrArg _ ha.stack, kernel := rfl }

/-- The outermost call puts an event into the outbox and goes on to deliver it. -/
theorem emit (ha : l.At [] false (.emit l.h e) K k s) : l.At [e] true (.deliver l.h) K k s.step := by
  have hstep : s.step = ((s.record (.emitted l.h (s.handle l.h).generation e)).mapHandle l.h fun x =>
      { x with outbox := x.outbox ++ [e], emitting := true }).go (.deliver l.h) := by
    rw [step, ha.control]
    show s.emit l.h e = _
    unfold Machine.emit
    dsimp only
    rw [ha.emitting, if_neg Bool.false_ne_true]
  have hbox : (s.handle l.h).outbox ++ [e] = [e] := by rw [ha.outbox]; rfl
  rw [hstep]
  exact ((ha.record _).mapHandle (fun x => { x with outbox := x.outbox ++ [e], emitting := true })
    (fun _ => ⟨rfl, rfl⟩)
    hbox rfl).go _

/-- Without subscribers the oldest event is queued. -/
theorem deliver (ha : l.At (e :: rest) emitting (.deliver l.h) K k s) :
    l.At rest emitting (.deliver l.h) K k s.step := by
  have hstep : s.step = (((s.mapHandle l.h fun x => { x with outbox := rest }).mapHandle l.h fun x =>
      { x with queue := x.queue ++ [e] }).record (.queued l.h e)).go (.deliver l.h) := by
    rw [step, ha.control]
    show s.deliver l.h = _
    unfold Machine.deliver
    dsimp only
    rw [ha.outbox]
    dsimp only
    rw [ha.subscribers]
  have hput : l.At rest emitting (.deliver l.h) K k (s.mapHandle l.h fun x => { x with outbox := rest }) :=
    ha.mapHandle (fun x => { x with outbox := rest }) (fun _ => ⟨rfl, rfl⟩) rfl ha.emitting
  rw [hstep]
  exact ((hput.mapHandle (fun x => { x with queue := x.queue ++ [e] }) (fun _ => ⟨rfl, rfl⟩) hput.outbox
    hput.emitting).record _).go _

/-- The last event is delivered. -/
theorem delivered (ha : l.At [] emitting (.deliver l.h) K k s) : l.At [] false (.value .unit) K k s.step := by
  have hstep : s.step = (s.mapHandle l.h fun x => { x with emitting := false }).yield .unit := by
    rw [step, ha.control]
    show s.deliver l.h = _
    unfold Machine.deliver
    dsimp only
    rw [ha.outbox]
  rw [hstep]
  exact (ha.mapHandle (fun x => { x with emitting := false }) (fun _ => ⟨rfl, rfl⟩) ha.outbox rfl).go _

theorem resume (ha : l.At box emitting (.value .unit) (.drained l.h l.st l.g :: K) k s) :
    l.At box emitting (.drain l.h l.st l.g) K k s.step := by
  rw [step_value ha.control ha.stack]
  exact { ha with control := rfl, stack := rfl }

/-- One read of bytes that nobody is told of brings the drain back to where it was. -/
theorem round {R : Machine → Machine → Prop} (ha : l.At [] false (.drain l.h l.st l.g) K k s)
    (hread : k.read l.pipe.pid l.st l.config.chunk = (.ok (b :: bs), k'))
    (hspan : Span R (fun _ => True) K.length x past (s, log)) :
    ∃ past' t log', Span R (fun _ => True) K.length x past' (t, log') ∧
    l.At [] false (.drain l.h l.st l.g) K k' t ∧
      (reads K.length past').length = (reads K.length past).length + 1 := by
  obtain ⟨hread, hone⟩ := ha.read hread
  have hput := hread.emit
  have hqueued := hput.deliver
  have htold := hqueued.delivered
  have hspan := hspan.step trivial (ha.busy (by simp) _)
  have hspan := hspan.step trivial (hread.busy (by simp) _)
  have hspan := hspan.step trivial (hput.busy (by simp) _)
  have hspan := hspan.step trivial (hqueued.busy (by simp) _)
  have hspan := hspan.step trivial (by rw [returned, htold.control, htold.stack]; simp)
  -- the steps between the read and the next one are made above the drain
  have above : ∀ {t : Machine}, t.stack = .drained l.h l.st l.g :: K → readsOf K.length t = [] := fun {t} hst =>
    readsOf_of_above (by rw [hst]; simp)
  refine ⟨_, _, _, hspan, htold.resume, ?_⟩
  rw [reads_cons, above htold.stack, reads_cons, above hqueued.stack, reads_cons, above hput.stack, reads_cons,
    above hread.stack, reads_cons, hone]
  simp [Nat.add_comm]

end Line.At

/-- **A child that goes on writing is read without end.**  When the child writes a byte between two reads, the
drain of a stream that nobody listens to comes to any number of reads, at whatever pace time passes, and is
still where it was. -/
theorem Line.At.reads_on (ha : l.At [] false (.drain l.h l.st l.g) K k s) {o : Kernel.Output}
    (hopen : Kernel.Open l.pipe.pid l.st k o) (hbytes : o.buffer ≠ []) (hsize : 0 < l.config.chunk) (log : List Entry)
    (ns n : Nat) :
    ∃ past t log', Span ChildWrites (fun _ => True) K.length (s, log) past (t, log') ∧
      (reads K.length past).length = n ∧ t.control = s.control ∧ t.stack = s.stack ∧
      t.kernel.now = s.kernel.now + n * ns := by
  have key : ∃ past t log' k' o', Span ChildWrites (fun _ => True) K.length (s, log) past (t, log') ∧
      (reads K.length past).length = n ∧ l.At [] false (.drain l.h l.st l.g) K k' t ∧
      Kernel.Open l.pipe.pid l.st k' o' ∧ o'.buffer ≠ [] ∧ k'.now = k.now + n * ns := by
    induction n with
    | zero => exact ⟨[], s, log, k, o, .begun, rfl, ha, hopen, hbytes, by rw [Nat.zero_mul]; rfl⟩
    | succ n ih =>
      obtain ⟨past, t, log', k₁, o₁, hspan, hn, hat, hopen₁, hfull, hnow⟩ := ih
      obtain ⟨b, bs, k₂, o₂, hread, hopen₂, hsame⟩ := hopen₁.read hsize hfull
      obtain ⟨past', u, log'', hspan', hback, hn'⟩ := hat.round hread hspan
      obtain ⟨o₃, hopen₃, hfull₃⟩ := hopen₂.emit 0 ns
      have hwrites : ChildWrites u (u.withKernel ((k₂.apply (.child l.pipe.pid (.emit l.st [0]))).advance ns)) :=
        ⟨l.pipe.pid, l.st, 0, ns, by rw [hback.kernel]⟩
      refine ⟨past', _, log'', _, o₃, hspan'.pause (hback.busy (by simp) _) (.elsewhere _) hwrites, ?_,
        { hback with kernel := rfl }, hopen₃, hfull₃, ?_⟩
      · rw [hn', hn]
      · show k₂.now + ns = _
        rw [hsame, hnow, Nat.succ_mul, Nat.add_assoc]
  obtain ⟨past, t, log', k', o', hspan, hn, hat, -, -, hnow⟩ := key
  exact ⟨past, t, log', hspan, hn, hat.control.trans ha.control.symm, hat.stack.trans ha.stack.symm,
    by rw [hat.kernel, ha.kernel, hnow]⟩

end

/-- The child of a machine heeds no polite signal, and has written a byte. -/
def talkative : Machine × List Entry :=
  carry (carry (.fresh { Config.standard with grace := 5000000 } 10000000 [] (.fresh true), [])
    (.spawn "a" (.ofArgs ["/bin/yes"]) ⟨{ Kernel.Habits.standard with ignored := [Signal.term] }, []⟩ none) 1)
    (.event (.child 4001 (.emit .out [121]))) 1

/-- It is being disposed of, and its output is about to be drained. -/
def chattering : Machine × List Entry := carry talkative (.dispose "a") 7

theorem chattering_at : Run (fun _ => True) chattering.1 chattering.2 ∧
    Line.At ⟨0, 1, .out, ⟨4001, 1⟩, { Config.standard with grace := 5000000 }⟩ [] false
    (.drain 0 .out 1) chattering.1.stack
      chattering.1.kernel chattering.1 ∧
    Kernel.Open 4001 .out chattering.1.kernel ⟨[121], true⟩ ∧
    chattering.1.stack.drop 2 = [.waiting 0 4, .grace 0, .reply 0] := by
  have htalkative : Run (fun _ => True) talkative.1 talkative.2 :=
    Run.carry (Run.carry (Run.init (.fresh { Config.standard with grace := 5000000 } 10000000 [] (.fresh true) true))
      rfl fun _ _ => trivial) (by decide) fun _ _ => trivial
  have hrun : Run (fun _ => True) chattering.1 chattering.2 := htalkative.carry (by decide) fun _ _ => trivial
  exact ⟨hrun, ⟨rfl, rfl, rfl, rfl, rfl, rfl, rfl, rfl, rfl⟩, ⟨rfl, rfl, rfl⟩, rfl⟩

/-- No number that depends on the configuration alone bounds the reads of a drain, not even when all that
happens meanwhile is that a child writes and time passes; and a dispose that waits beneath a drain gets to its
deadline as late as one likes. -/
theorem reads_without_bound :
    (¬ ∃ bound : Config → Nat, ∀ (x y : Machine × List Entry) (past : List Machine) (h g : Nat) (st : Stream),
      Run (fun _ => True) x.1 x.2 → x.1.control = .drain h st g →
      Span ChildWrites (fun _ => True) x.1.stack.length x past y →
      (reads x.1.stack.length past).length ≤ bound x.1.config) ∧
    ∃ x : Machine × List Entry, Run (fun _ => True) x.1 x.2 ∧ x.1.control = .drain 0 .out 1 ∧
      x.1.stack.drop 2 = [.waiting 0 4, .grace 0, .reply 0] ∧
      ∀ late, ∃ past y, Span ChildWrites (fun _ => True) x.1.stack.length x past y ∧
      y.1.control = .drain 0 .out 1 ∧
        y.1.stack = x.1.stack ∧ x.1.kernel.now + x.1.config.grace + late ≤ y.1.kernel.now := by
  obtain ⟨hrun, hat, hopen, hbelow⟩ := chattering_at
  generalize chattering = x at hrun hat hopen hbelow
  have hreads := hat.reads_on hopen (List.cons_ne_nil _ _) (by decide) x.2
  refine ⟨?_, x, hrun, hat.control, hbelow, fun late => ?_⟩
  · rintro ⟨bound, hbound⟩
    obtain ⟨past, t, log, hspan, hn, -, -, -⟩ := hreads 0 (bound x.1.config + 1)
    have hle := hbound x (t, log) past 0 1 .out hrun hat.control hspan
    omega
  · obtain ⟨past, t, log, hspan, -, hcontrol, hstack, hnow⟩ := hreads (x.1.config.grace + late) 1
    refine ⟨past, (t, log), hspan, hcontrol.trans hat.control, hstack, ?_⟩
    show _ ≤ t.kernel.now
    omega

end Machine

end Overseer
