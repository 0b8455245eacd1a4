import Sbd.Quorum
import Sbd.Mailbox

/-!
# The node: the inquisitor and its servants

The inquisitor's signals come from its servants. A servant's main loop sends `SIG_LIVENESS`
after every read of its slot, and `SIG_TEST` and `SIG_EXITREQ` when the read finds those
commands. `Sbd.Inquisitor` runs the inquisitor on whatever signal the environment picks, and
`Sbd.Mailbox` runs one servant against peers writing into its slot. `Node` puts them together:
the inquisitor, the main loop of every servant it deployed, and peers writing into the servants'
slots, interleaved in any order.

The one constraint is who sends what (`Node.Sent`). `SIG_LIVENESS`, `SIG_EXITREQ` and `SIG_TEST`
reach the inquisitor only from a servant whose loop has sent them. `SIGCHLD` comes from the
kernel, and `SIGUSR1` and `SIGUSR2` from anyone. A signal sent once may be taken more than once:
that only adds runs, and every result below holds of them too.

## Bookkeeping

`evs` keeps, for each servant pid, the events its loop and its slot have seen. The servant's
state is the run of `Sbd.mboxStep` over them (`Node.box`), so every fact about one servant's loop
applies. `heard` is the history variable of `Sbd.heardSince`: the pids of the `SIG_LIVENESS` the
steady loop's handler took since its last tickle. No step reads either, except the sender
constraint.

## Results

* `tickle_needs_quorum_of_reading_servants`: a `SIG_LIVENESS` tickles the watchdog only when it
  and those heard since the last tickle come from at least `N / 2 + 1` distinct full-job servants,
  each of which sent `SIG_LIVENESS` after reading its slot successfully.
* `exit_cascade_needs_written_exit`: the watchdog is closed and servants are killed only after a
  peer wrote `SBD_MSG_EXIT` into the slot of one of the node's servants.
-/

namespace Sbd

/-- The inquisitor together with the main loops of its servants and the slots they poll. -/
structure Node where
  inq : Inquisitor
  /-- The events the main loop and the slot of the servant with each pid have seen. -/
  evs : Nat → List MboxEvent
  /-- The pids of the `SIG_LIVENESS` the inquisitor took since its last tickle. -/
  heard : List Nat

/-- What can happen next in the node. -/
inductive NodeEvent where
  /-- One step of the main loop of the servant with pid `p`. -/
  | servant (p : Nat) (orphan readFails : Bool)
  /-- A peer writes `cmd` into the slot of the servant with pid `p`. -/
  | peer (p : Nat) (cmd : Int)
  /-- The inquisitor's `sigwaitinfo` returns `sig`, and the inquisitor handles it. -/
  | signal (sig : Signal)

namespace Node

/-- The main loop and the slot of the servant with pid `p`. -/
def box (n : Node) (p : Nat) : Mailbox := (n.evs p).foldl mboxStep Mailbox.init

/-- `p` was forked as a `SERVANT_DO_FULLJOB` servant. -/
def IsServant (n : Node) (p : Nat) : Prop :=
  ∃ d, Effect.fork d p (.servant .fullJob) ∈ n.inq.proc.log

/-- Who may have sent `sig`: a `SIG_LIVENESS` from `p` only `p`'s loop, a `SIG_EXITREQ` or a
`SIG_TEST` only some servant's loop; anything else is sent by the kernel or by anyone. -/
def Sent (n : Node) : Signal → Prop
  | .liveness p => Act.sigLiveness ∈ (n.box p).acts
  | .exitreq => ∃ p, Act.sigExitreq ∈ (n.box p).acts
  | .test => ∃ p, Act.sigTest ∈ (n.box p).acts
  | _ => True

/-- Whether `e` can happen: the loops and slots are those of the inquisitor's full-job servants,
and a signal needs its sender. -/
def Allowed (n : Node) : NodeEvent → Prop
  | .servant p _ _ => n.IsServant p
  | .peer p _ => n.IsServant p
  | .signal sig => n.Sent sig

/-- The servant with pid `p`, or its slot, sees the event `ev`. -/
def record (n : Node) (p : Nat) (ev : MboxEvent) : Node :=
  { n with evs := Function.update n.evs p (n.evs p ++ [ev]) }

/-- One event. -/
def step (h : Host) (n : Node) : NodeEvent → Node
  | .servant p o r => n.record p (.servant o r)
  | .peer p c => n.record p (.peer c)
  | .signal sig =>
    { n with
      inq := Sbd.step h n.inq sig
      heard := if tickles n.inq.proc < tickles (Sbd.step h n.inq sig).proc then []
        else n.heard ++ sig.takenPids n.inq }

/-- The node as `inquisitor` starts it: no servant has run its loop yet. -/
def start (h : Host) (devs : List String) (t : Timeouts) : Node :=
  ⟨inquisitor h devs t, fun _ => [], []⟩

theorem evs_subset_record (n : Node) (p : Nat) (ev : MboxEvent) (q : Nat) :
    n.evs q ⊆ (n.record p ev).evs q := by
  by_cases hq : q = p
  · subst hq
    simp [record]
  · simp [record, hq]

theorem acts_subset_record (n : Node) (p : Nat) (ev : MboxEvent) (q : Nat) :
    (n.box q).acts ⊆ ((n.record p ev).box q).acts := by
  by_cases hq : q = p
  · subst hq
    simpa [box, record] using acts_subset_mboxStep (n.box q) ev
  · simp [box, record, hq]

end Node

/-- The nodes reachable from the start by allowed events. -/
inductive NodeReachable (h : Host) (devs : List String) (t : Timeouts) : Node → Prop
  | start : NodeReachable h devs t (Node.start h devs t)
  | step {n : Node} (e : NodeEvent) : NodeReachable h devs t n → n.Allowed e →
      NodeReachable h devs t (n.step h e)

/-! ## The inquisitor's side -/

/-- A magic close or a `SIGKILL`, the effects of the exit cascade. -/
def Cascade (e : Effect) : Prop := e = .watchdogClose ∨ ∃ q, e = .kill q

/-- A step of the inquisitor appends to its log, and appends a cascade effect only in the steady
loop's `SIG_EXITREQ` handler of a running process. -/
theorem grows_step (h : Host) (s : Inquisitor) (sig : Signal) :
    Grows (fun e => Cascade e → s.proc.ending = none ∧ s.steady = true ∧ sig = .exitreq) s.proc
      (step h s sig).proc := by
  unfold step
  split
  · exact .rfl'
  · next hend =>
    split
    · next hst =>
      by_cases hx : sig = .exitreq
      · subst hx
        exact (grows_exitreq h.kernel s).imp fun _ _ _ => ⟨by simpa using hend, hst, rfl⟩
      · exact (grows_steadyStep h.kernel s hx).imp fun e he hc => by
          rcases he with rfl | ⟨d, q, rfl⟩ <;> simp [Cascade] at hc
    · exact (grows_startupStep h s sig).imp fun e he hc => by
        rcases he with rfl | rfl | ⟨d, q, rfl⟩ <;> simp [Cascade] at hc

/-- The start of `inquisitor` shows no cascade effect. -/
theorem grows_inquisitor (h : Host) (devs : List String) (t : Timeouts) :
    Grows (fun e => ¬Cascade e) Proc.fresh (inquisitor h devs t).proc :=
  ((grows_forkAll h.kernel _ Proc.fresh _).imp fun _ ⟨_, _, he⟩ => by simp [he, Cascade]).trans
    ((grows_startupCheck h _).imp fun e he => by
      rcases he with rfl | rfl | ⟨d, q, rfl⟩ <;> simp [Cascade])

/-! ## The node invariant -/

section Inv

variable {h : Host} {devs : List String} {t : Timeouts} {n : Node}

/-- What holds in every reachable node. -/
structure NodeInv (h : Host) (devs : List String) (t : Timeouts) (n : Node) : Prop where
  reachable : Reachable h devs t n.inq
  heard : Heard n.heard n.inq
  /-- Only the full-job servants' loops and slots have seen events. -/
  servants : ∀ p, n.evs p ≠ [] → n.IsServant p
  /-- Every pid heard since the last tickle is a loop that sent `SIG_LIVENESS`. -/
  sent : ∀ p ∈ n.heard, Act.sigLiveness ∈ (n.box p).acts
  /-- The exit cascade began only on a written `SBD_MSG_EXIT`. -/
  cascade : (∃ e ∈ n.inq.proc.log, Cascade e) →
    ∃ p, n.IsServant p ∧ MboxEvent.peer sbdMsgExit ∈ n.evs p

theorem nodeInv_start : NodeInv h devs t (Node.start h devs t) := by
  obtain ⟨fs, hl, hfs⟩ := grows_inquisitor h devs t
  refine ⟨.start, heard_inquisitor devs t, fun _ hp => absurd rfl hp, fun _ hp => (nomatch hp), ?_⟩
  rintro ⟨e, he, hc⟩
  simp only [Node.start, hl, Proc.fresh, List.nil_append] at he
  exact absurd hc (hfs e he)

/-- A servant that sent anything has seen events. -/
theorem Node.evs_ne_nil {p : Nat} {a : Act} (ha : a ∈ (n.box p).acts) : n.evs p ≠ [] := by
  rintro h0
  simp [Node.box, h0, Mailbox.init] at ha

theorem NodeInv.record (hi : NodeInv h devs t n) {p : Nat} (hp : n.IsServant p)
    (ev : MboxEvent) : NodeInv h devs t (n.record p ev) := by
  refine ⟨hi.reachable, hi.heard, fun q hq => ?_,
    fun q hq => n.acts_subset_record p ev q (hi.sent q hq), fun hc => ?_⟩
  · by_cases hqp : q = p
    · subst hqp
      exact hp
    · exact hi.servants q (by simpa [Node.record, hqp] using hq)
  · obtain ⟨q, hq, hx⟩ := hi.cascade hc
    exact ⟨q, hq, n.evs_subset_record p ev q hx⟩

theorem NodeInv.signal (hi : NodeInv h devs t n) (sig : Signal) (hs : n.Sent sig) :
    NodeInv h devs t (n.step h (.signal sig)) := by
  obtain ⟨fs, hl, hfs⟩ := grows_step h n.inq sig
  have hsub : ∀ p, n.IsServant p → (n.step h (.signal sig)).IsServant p :=
    fun p ⟨d, hd⟩ => ⟨d, by simp only [Node.step, hl]; exact List.mem_append_left _ hd⟩
  refine ⟨hi.reachable.step sig, heard_step hi.heard sig, fun p hp => hsub p (hi.servants p hp),
    fun p hp => ?_, ?_⟩
  · simp only [Node.step] at hp
    split at hp
    · simp at hp
    · rcases List.mem_append.mp hp with hp | hp
      · exact hi.sent p hp
      · unfold Signal.takenPids at hp
        split at hp
        · cases sig <;> simp only [Signal.livenessPids, List.mem_singleton,
            List.not_mem_nil] at hp
          subst hp
          exact hs
        · simp at hp
  · rintro ⟨e, he, hc⟩
    simp only [Node.step, hl] at he
    rcases List.mem_append.mp he with he | he
    · obtain ⟨p, hp, hx⟩ := hi.cascade ⟨e, he, hc⟩
      exact ⟨p, hsub p hp, hx⟩
    · obtain ⟨-, -, rfl⟩ := hfs e he hc
      obtain ⟨p, hp⟩ := hs
      exact ⟨p, hsub p (hi.servants p (Node.evs_ne_nil hp)), (caused_run (n.evs p)).acts _ hp⟩

theorem nodeInv_of_reachable (hn : NodeReachable h devs t n) : NodeInv h devs t n := by
  induction hn with
  | start => exact nodeInv_start
  | step e _ ha ih =>
    cases e with
    | servant p o r => exact ih.record ha _
    | peer p c => exact ih.record ha _
    | signal sig => exact ih.signal sig ha

/-! ## Results -/

/-- **A tickle needs a majority of reading servants.** In every reachable node, a `SIG_LIVENESS`
from `p` tickles the watchdog only if `p` and the pids heard since the last tickle are at least
`N / 2 + 1` distinct pids, each a full-job servant forked by the inquisitor whose loop sent
`SIG_LIVENESS`, which it does only after reading its slot successfully: its parent alive and
`mbox_read` returning. -/
theorem tickle_needs_quorum_of_reading_servants (hn : NodeReachable h devs t n) (p : Nat)
    (hs : n.Sent (.liveness p))
    (htick : tickles n.inq.proc < tickles (n.step h (.signal (.liveness p))).inq.proc) :
    quorum devs.length ≤ (n.heard ++ [p]).dedup.length ∧
      ∀ q ∈ n.heard ++ [p], n.IsServant q ∧ Act.sigLiveness ∈ (n.box q).acts ∧
        MboxEvent.servant false false ∈ n.evs q := by
  have hi := nodeInv_of_reachable hn
  have hq : n.inq.proc.ending = none ∧ n.inq.steady = true ∧ n.inq.exiting = false ∧
      ((∃ q, Signal.liveness p = .liveness q) ∨ Signal.liveness p = .usr1) := by
    by_contra hq
    exact absurd (step_quiet _ hq).2 htick.ne'
  obtain ⟨hrun, hst, hx, -⟩ := hq
  refine ⟨?_, fun q hq => ?_⟩
  · rw [← (packed_of_reachable hi.reachable).1]
    exact ((hi.heard hrun).liveness p).2 ((tickles_step_liveness hrun hst hx p).mp htick)
  · have hl : Act.sigLiveness ∈ (n.box q).acts := by
      rcases List.mem_append.mp hq with hq | hq
      · exact hi.sent q hq
      · rw [List.mem_singleton.mp hq]
        exact hs
    exact ⟨hi.servants q (Node.evs_ne_nil hl), hl, read_of_sigLiveness _ hl⟩

/-- Three disks after startup: the servants on `a` and `b` each read their slot once, and the
second `SIG_LIVENESS` tickles. -/
theorem tickle_on_two_reading_servants :
    let h : Host := ⟨Kernel.sequential, fun _ => some ⟨5, 1, 10⟩, true⟩
    let n₀ := (Node.start h ["a", "b", "c"] ⟨5, 1, 10⟩).step h
      (.signal (.chld [(1, .exited 0), (2, .exited 0), (3, .exited 0)]))
    let n₁ := ((n₀.step h (.servant 4 false false)).step h (.servant 4 false false)).step h
      (.signal (.liveness 4))
    let n := (n₁.step h (.servant 5 false false)).step h (.servant 5 false false)
    (NodeReachable h ["a", "b", "c"] ⟨5, 1, 10⟩ n ∧ n.Sent (.liveness 5) ∧
      tickles n.inq.proc < tickles (n.step h (.signal (.liveness 5))).inq.proc) ∧
      quorum ["a", "b", "c"].length ≤ (n.heard ++ [5]).dedup.length ∧
        ∀ q ∈ n.heard ++ [5], n.IsServant q ∧ Act.sigLiveness ∈ (n.box q).acts ∧
          MboxEvent.servant false false ∈ n.evs q := by
  intro h n₀ n₁ n
  have hs : n.Sent (.liveness 5) := show Act.sigLiveness ∈ (n.box 5).acts by decide
  have hn : NodeReachable h ["a", "b", "c"] ⟨5, 1, 10⟩ n :=
    .step _ (.step _ (.step _ (.step _ (.step _ (.step _ .start trivial) ⟨"a", by decide⟩)
      ⟨"a", by decide⟩) (show Act.sigLiveness ∈ _ by decide)) ⟨"b", by decide⟩) ⟨"b", by decide⟩
  exact ⟨⟨hn, hs, by decide⟩, tickle_needs_quorum_of_reading_servants hn 5 hs (by decide)⟩

/-- **No exit cascade without a written exit.** In every reachable node, the watchdog has been
closed or a servant killed only after a peer wrote `SBD_MSG_EXIT` into the slot of one of the
full-job servants the inquisitor forked. -/
theorem exit_cascade_needs_written_exit (hn : NodeReachable h devs t n)
    (hc : Effect.watchdogClose ∈ n.inq.proc.log ∨ ∃ q, Effect.kill q ∈ n.inq.proc.log) :
    ∃ p, n.IsServant p ∧ MboxEvent.peer sbdMsgExit ∈ n.evs p := by
  refine (nodeInv_of_reachable hn).cascade ?_
  rcases hc with hc | ⟨q, hq⟩
  · exact ⟨_, hc, .inl rfl⟩
  · exact ⟨_, hq, .inr ⟨q, rfl⟩⟩

/-- Three disks after startup: a peer writes `SBD_MSG_EXIT` into the slot of the servant on `a`,
which reads it and forwards `SIG_EXITREQ`. -/
theorem exit_cascade_after_written_exit :
    let h : Host := ⟨Kernel.sequential, fun _ => some ⟨5, 1, 10⟩, true⟩
    let n₀ := (Node.start h ["a", "b", "c"] ⟨5, 1, 10⟩).step h
      (.signal (.chld [(1, .exited 0), (2, .exited 0), (3, .exited 0)]))
    let n₁ := ((n₀.step h (.peer 4 sbdMsgExit)).step h (.servant 4 false false)).step h
      (.servant 4 false false)
    let n := n₁.step h (.signal .exitreq)
    (NodeReachable h ["a", "b", "c"] ⟨5, 1, 10⟩ n ∧
      (Effect.watchdogClose ∈ n.inq.proc.log ∨ ∃ q, Effect.kill q ∈ n.inq.proc.log)) ∧
      ∃ p, n.IsServant p ∧ MboxEvent.peer sbdMsgExit ∈ n.evs p := by
  intro h n₀ n₁ n
  have hn : NodeReachable h ["a", "b", "c"] ⟨5, 1, 10⟩ n :=
    .step _ (.step _ (.step _ (.step _ (.step _ .start trivial) ⟨"a", by decide⟩)
      ⟨"a", by decide⟩) ⟨"a", by decide⟩) ⟨4, by decide⟩
  exact ⟨⟨hn, .inl (by decide)⟩, exit_cascade_needs_written_exit hn (.inl (by decide))⟩

end Inv

end Sbd
