import Sbd.Startup
import Sbd.Respawn
import Sbd.Messenger
import Sbd.Children

/-!
# What the children's exit statuses certify

The inquisitor and the messenger decide on exit statuses alone: `good_servant` counts the
prepare-only servants that exited 0, `successed_delivery` the message children that did. This
file ties those counters to what the children did on their disks, for a kernel that reports each
child's own exit truly.

## An honest kernel

`Honest j ret log l` says that an entry `(q, exited c)` of the drain `l`, for a child forked in
`log` as `q` to run `j` on `d`, carries the status `assign_servant`'s child exits with after
`ret d q` (`Sbd.childExit`). Entries with a signal are left free: a child may be killed by
anyone. `HonestReachable` is `Reachable` with an honest kernel in the startup loop; the steady
loop's reports stay free.

## Counting distinct children

Each counter is bounded by `reapedZero`, the forks in the log whose function exits 0 and whose
child is no longer unreaped. A reap removes its child from the children, so it moves exactly one
fork into the count (`reapedZero_erase_lt`); a pid the kernel reports twice, or one that is no
child, is passed over by the drain. So the counters count distinct forks, whatever the drains
return.

When no pid is forked twice, a reap moves exactly its own fork, whichever way the child exited
(`reapedZero_erase_eq`): a startup whose children are each reported once, as exits, keeps
`good_servant` equal to the count (`Drain`), and decides on it.

## Results

* `armed_only_over_prepared_disks`: the steady loop is entered, and the watchdog armed, only
  after `N / 2 + 1` of the prepare-only servants set their disk up.
* `startup_verdict_counts_prepared_disks`: with one header on every disk and each prepare-only
  servant reported once, as an exit, the startup loop enters the steady loop exactly when
  `N / 2 + 1` of them set their disk up and returns `-1` exactly when fewer did, unless a fork
  fails.
* `messenger_returns_zero_only_over_delivered_quorum`: `messenger` returns 0 only after
  `N / 2 + 1` of its children opened their disk and had `slot_msg` take the message.
-/

namespace Sbd

/-! ## Forks in the log -/

/-- The devices and pids of the children forked in `log` to run `j`, oldest first. -/
def forksOf (j : Job) (log : List Effect) : List (String × Nat) :=
  log.filterMap fun
    | .fork d q j' => if j' = j then some (d, q) else none
    | _ => none

@[simp] theorem forksOf_append (j : Job) (l₁ l₂ : List Effect) :
    forksOf j (l₁ ++ l₂) = forksOf j l₁ ++ forksOf j l₂ :=
  List.filterMap_append _ _ _

theorem fork_mem_forksOf {j : Job} {log : List Effect} {d : String} {q : Nat}
    (h : Effect.fork d q j ∈ log) : (d, q) ∈ forksOf j log :=
  List.mem_filterMap.mpr ⟨_, h, by simp⟩

/-- A log that only grows counts at least the forks it counted. -/
theorem Grows.countP_forksOf_le {p : Effect → Prop} {o o' : Proc} (hg : Grows p o o') (j : Job)
    (f : String × Nat → Bool) : (forksOf j o.log).countP f ≤ (forksOf j o'.log).countP f := by
  obtain ⟨fs, hl, -⟩ := hg
  simp [hl, List.countP_append]

/-- One element that `q` takes and `p` does not makes the count strictly larger. -/
theorem countP_lt_countP {α : Type} {p q : α → Bool} {l : List α}
    (hpq : ∀ x ∈ l, p x → q x) {y : α} (hy : y ∈ l) (hp : p y = false) (hq : q y) :
    l.countP p < l.countP q := by
  induction l with
  | nil => cases hy
  | cons x l ih =>
    have hpq' : ∀ z ∈ l, p z → q z := fun z hz => hpq z (List.mem_cons_of_mem x hz)
    have hle := List.countP_mono_left hpq'
    simp only [List.countP_cons]
    rcases List.mem_cons.mp hy with rfl | hy
    · simp only [hp, hq, if_true, Bool.false_eq_true, if_false]
      omega
    · have := ih hpq' hy
      by_cases hx : p x
      · simp only [hx, hpq x (List.mem_cons_self _ _) hx, if_true]
        omega
      · simp only [hx, Bool.false_eq_true, if_false]
        split <;> omega

/-! ## Children forked for one job -/

/-- Every unreaped child of `o` was forked to run `j`, and no pid is held twice. -/
structure ChildrenOf (j : Job) (o : Proc) : Prop where
  nodup : o.children.Nodup
  forked : ∀ p ∈ o.children, ∃ d, Effect.fork d p j ∈ o.log

variable {j : Job} {ret : String → Nat → Option Int}

theorem ChildrenOf.fresh : ChildrenOf j Proc.fresh := ⟨List.nodup_nil, by simp [Proc.fresh]⟩

theorem ChildrenOf.reap {o : Proc} (h : ChildrenOf j o) (p : Nat) : ChildrenOf j (o.reap p) :=
  ⟨h.nodup.erase p, fun q hq => h.forked q (List.erase_subset _ _ hq)⟩

theorem childrenOf_forkAll (k : Kernel) :
    ∀ {o : Proc} (ss : List Servant), ChildrenOf j o → ChildrenOf j (forkAll k j o ss).1
  | o, [], h => h
  | o, s :: ss, h => by
    rcases assignServant_cases k o s.devname j with ⟨p, -, hpc, ha⟩ | ha <;>
      simp only [forkAll, ha]
    · refine childrenOf_forkAll k ss ⟨List.nodup_cons.mpr ⟨hpc, h.nodup⟩, fun q hq => ?_⟩
      rcases List.mem_cons.mp hq with rfl | hq
      · exact ⟨s.devname, by simp⟩
      · obtain ⟨d, hd⟩ := h.forked q hq
        exact ⟨d, List.mem_append_left _ hd⟩
    · exact ⟨h.nodup, h.forked⟩

/-- The forks `forkAll` records for `j` are its children, newest first. -/
theorem forksOf_forkAll (k : Kernel) :
    ∀ {o : Proc} (ss : List Servant), (forksOf j o.log).map Prod.snd = o.children.reverse →
      (forksOf j (forkAll k j o ss).1.log).map Prod.snd = (forkAll k j o ss).1.children.reverse
  | o, [], h => h
  | o, s :: ss, h => by
    rcases assignServant_cases k o s.devname j with ⟨p, -, -, ha⟩ | ha <;> simp only [forkAll, ha]
    · exact forksOf_forkAll k ss (by rw [forksOf_append, List.map_append, h]; simp [forksOf])
    · exact h

/-! ## Counting children that exited 0 -/

/-- The forks in `log` of children running `ret` as `j` that exit 0 and are no longer among the
unreaped children `cs`. -/
def reapedZero (j : Job) (ret : String → Nat → Option Int) (log : List Effect) (cs : List Nat) :
    Nat :=
  (forksOf j log).countP fun f => childExit (ret f.1 f.2) = some 0 ∧ f.2 ∉ cs

theorem reapedZero_le (log : List Effect) (cs : List Nat) :
    reapedZero j ret log cs ≤ (forksOf j log).countP fun f => childExit (ret f.1 f.2) = some 0 :=
  List.countP_mono_left fun _ _ h => by simp_all

/-- A reap only adds to the reaped children. -/
theorem reaped_erase {cs : List Nat} (p : Nat) (f : String × Nat) :
    decide (childExit (ret f.1 f.2) = some 0 ∧ f.2 ∉ cs) = true →
      decide (childExit (ret f.1 f.2) = some 0 ∧ f.2 ∉ cs.erase p) = true := by
  simp only [decide_eq_true_eq]
  exact fun h => ⟨h.1, fun hm => h.2 (List.erase_subset _ _ hm)⟩

theorem reapedZero_erase_le (log : List Effect) (cs : List Nat) (p : Nat) :
    reapedZero j ret log cs ≤ reapedZero j ret log (cs.erase p) :=
  List.countP_mono_left fun f _ => reaped_erase p f

/-- Reaping a child forked to run `j` whose function exits 0 adds one to the count. -/
theorem reapedZero_erase_lt {o : Proc} {p : Nat} (hc : ChildrenOf j o) (hp : p ∈ o.children)
    (hz : ∀ d, Effect.fork d p j ∈ o.log → childExit (ret d p) = some 0) :
    reapedZero j ret o.log o.children < reapedZero j ret o.log (o.children.erase p) := by
  obtain ⟨d, hd⟩ := hc.forked p hp
  exact countP_lt_countP (fun f _ => reaped_erase p f) (fork_mem_forksOf hd) (by simp [hp])
    (by simp [hz d hd, hc.nodup.not_mem_erase])

/-- Reaping a child forked once to run `j` adds exactly its own exit 0 to the count. -/
theorem reapedZero_erase_eq {L : List Effect} {cs : List Nat} {d : String} {p : Nat}
    (hnd : ((forksOf j L).map Prod.snd).Nodup) (hd : (d, p) ∈ forksOf j L) (hp : p ∈ cs)
    (hcs : cs.Nodup) :
    reapedZero j ret L (cs.erase p) =
      reapedZero j ret L cs + if childExit (ret d p) = some 0 then 1 else 0 := by
  obtain ⟨l₁, l₂, hl⟩ := List.append_of_mem hd
  rw [hl, List.map_append, List.map_cons, List.nodup_middle] at hnd
  have hout : ∀ f ∈ l₁ ++ l₂, f.2 ≠ p := fun f hf hfp =>
    (List.nodup_cons.mp hnd).1 (by simpa [hfp] using List.mem_map_of_mem Prod.snd hf)
  have hsame : ∀ f ∈ l₁ ++ l₂, (decide (childExit (ret f.1 f.2) = some 0 ∧ f.2 ∉ cs.erase p) =
      true ↔ decide (childExit (ret f.1 f.2) = some 0 ∧ f.2 ∉ cs) = true) := fun f hf => by
    simp [List.mem_erase_of_ne (hout f hf)]
  unfold reapedZero
  rw [hl, List.countP_append, List.countP_append, List.countP_cons, List.countP_cons,
    List.countP_congr fun f hf => hsame f (List.mem_append_left _ hf),
    List.countP_congr fun f hf => hsame f (List.mem_append_right _ hf)]
  simp [hp, hcs.not_mem_erase]
  omega

/-- **One reap.** A counter that grows by one for an exit 0, and otherwise not, stays within the
count when the kernel reports the reaped child's exit truly. -/
theorem le_reapedZero_reap {o : Proc} {p : Nat} {st : Status} {n n' : Nat}
    (hc : ChildrenOf j o) (hp : p ∈ o.children)
    (hon : ∀ c d, st = .exited c → Effect.fork d p j ∈ o.log → childExit (ret d p) = some c)
    (hn : n ≤ reapedZero j ret o.log o.children)
    (hn' : n' ≤ if st = .exited 0 then n + 1 else n) :
    n' ≤ reapedZero j ret o.log (o.children.erase p) := by
  have hle : reapedZero j ret o.log o.children ≤ reapedZero j ret o.log (o.children.erase p) :=
    reapedZero_erase_le _ _ _
  split at hn'
  · next h0 =>
    have := reapedZero_erase_lt hc hp fun d hd => hon 0 d h0 hd
    omega
  · omega

/-- The kernel reports truly how the children forked in `log` to run `ret` as `j` ended on their
own: an entry `(q, exited c)` of the drain `l`, for a child forked as `q` on `d`, has `c` the
status that child exits with. -/
def Honest (j : Job) (ret : String → Nat → Option Int) (log : List Effect)
    (l : List (Nat × Status)) : Prop :=
  ∀ q c d, (q, Status.exited c) ∈ l → Effect.fork d q j ∈ log →
    childExit (ret d q) = some c

/-! ## The startup loop -/

section Startup

variable {h : Host} {devs : List String} {t : Timeouts} {N : Nat} {s : Inquisitor}

/-- The states the inquisitor reaches when the kernel reports the exits of the prepare-only
servants, which run `ret`, truly; the steady loop's reports are free. -/
inductive HonestReachable (h : Host) (ret : String → Nat → Option Int) (devs : List String)
    (t : Timeouts) : Inquisitor → Prop
  | start : HonestReachable h ret devs t (inquisitor h devs t)
  | step {s : Inquisitor} (sig : Signal) : HonestReachable h ret devs t s →
      (∀ l, sig = .chld l → s.steady = false →
        Honest (.servant .prepareOnly) ret s.proc.log l) →
      HonestReachable h ret devs t (step h s sig)

/-- What the startup counters mean under an honest kernel, for `N` disks. -/
structure Prepared (ret : String → Nat → Option Int) (N : Nat) (s : Inquisitor) : Prop where
  count : s.servantCount = N
  /-- While the startup loop runs, the unreaped children are prepare-only servants and
  `good_servant` counts reaped ones that exit 0. -/
  counting : s.steady = false → s.proc.ending = none →
    ChildrenOf (.servant .prepareOnly) s.proc ∧
      s.tally.good ≤ reapedZero (.servant .prepareOnly) ret s.proc.log s.proc.children
  /-- Once the steady loop is entered, a quorum of prepare-only servants exit 0. -/
  armed : s.steady = true → quorum N ≤
    (forksOf (.servant .prepareOnly) s.proc.log).countP fun f => childExit (ret f.1 f.2) = some 0

theorem prepared_startupCheck (hst : s.steady = false) (hN : s.servantCount = N)
    (hc : s.proc.ending = none → ChildrenOf (.servant .prepareOnly) s.proc ∧
      s.tally.good ≤ reapedZero (.servant .prepareOnly) ret s.proc.log s.proc.children) :
    Prepared ret N (startupCheck h s) := by
  rcases startupCheck_cases h s with he | ⟨hs', hend⟩ | ⟨hs', hrun, hq⟩
  · rw [he]
    exact ⟨hN, fun _ => hc, by simp [hst]⟩
  · refine ⟨by simp [hN], fun _ h' => by simp [h'] at hend, fun h' => by simp [hs', hst] at h'⟩
  · refine ⟨by simp [hN], fun h' => by simp [hs'] at h', fun _ => ?_⟩
    calc quorum N ≤ s.tally.good := hN ▸ hq
      _ ≤ reapedZero (.servant .prepareOnly) ret s.proc.log s.proc.children := (hc hrun).2
      _ ≤ _ := reapedZero_le _ _
      _ ≤ _ := (grows_startupCheck h s).countP_forksOf_le _ _

/-- A startup reap leaves the process running or exits 1, and counts at most the one exit 0. -/
theorem startupReap_spec (h : Host) (o : Proc) (a : List Servant × Tally) (p : Nat)
    (st : Status) :
    ((startupReap h o a p st).1 = o ∨ (startupReap h o a p st).1 = o.halt (.exit 1)) ∧
      (startupReap h o a p st).2.2.good ≤ if st = .exited 0 then a.2.good + 1 else a.2.good := by
  unfold startupReap
  split
  · exact ⟨.inl rfl, by dsimp only; split <;> omega⟩
  · dsimp only
    split
    · next h0 =>
      split
      · exact ⟨.inr rfl, by simp [h0]⟩
      · exact ⟨.inl rfl, by simp [h0]⟩
    · next h0 => exact ⟨.inl rfl, by simp [h0]⟩

theorem counting_startupReap {L : List Effect} {o : Proc} {a : List Servant × Tally} {p : Nat}
    {st : Status} (hL : o.log = L) (hc : ChildrenOf (.servant .prepareOnly) o)
    (hg : a.2.good ≤ reapedZero (.servant .prepareOnly) ret o.log o.children)
    (hp : p ∈ o.children) (hon : ∀ c d, st = .exited c →
      Effect.fork d p (.servant .prepareOnly) ∈ o.log → childExit (ret d p) = some c) :
    (startupReap h (o.reap p) a p st).1.log = L ∧
      ((startupReap h (o.reap p) a p st).1.ending = none →
        ChildrenOf (.servant .prepareOnly) (startupReap h (o.reap p) a p st).1 ∧
          (startupReap h (o.reap p) a p st).2.2.good ≤
            reapedZero (.servant .prepareOnly) ret (startupReap h (o.reap p) a p st).1.log
              (startupReap h (o.reap p) a p st).1.children) := by
  obtain ⟨he | he, hgood⟩ := startupReap_spec h (o.reap p) a p st <;> rw [he]
  · exact ⟨hL, fun _ => ⟨hc.reap p, le_reapedZero_reap hc hp hon hg hgood⟩⟩
  · exact ⟨hL, fun h' => by simp at h'⟩

theorem prepared_step (hp : Prepared ret N s) (sig : Signal)
    (hon : ∀ l, sig = .chld l → s.steady = false →
      Honest (.servant .prepareOnly) ret s.proc.log l) :
    Prepared ret N (step h s sig) := by
  unfold step
  split
  · exact hp
  · next hend =>
    have hrun : s.proc.ending = none := by simpa using hend
    split
    · next hst =>
      obtain ⟨hc, -, hs, -⟩ := steadyStep_keeps h.kernel s sig
      refine ⟨hc ▸ hp.count, fun h' => by simp [hs, hst] at h',
        fun _ => (hp.armed hst).trans ?_⟩
      by_cases hx : sig = .exitreq
      · subst hx
        exact (grows_exitreq h.kernel s).countP_forksOf_le _ _
      · exact (grows_steadyStep h.kernel s hx).countP_forksOf_le _ _
    · next hst =>
      simp only [Bool.not_eq_true] at hst
      have hc := hp.counting hst hrun
      cases sig with
      | chld l =>
        refine prepared_startupCheck hst hp.count (waitLoop_induction_mem
          (fun o a => o.log = s.proc.log ∧ (o.ending = none →
            ChildrenOf (.servant .prepareOnly) o ∧
              a.2.good ≤ reapedZero (.servant .prepareOnly) ret o.log o.children))
          (fun o a p st hm hi hrun' hp => ?_) s.proc (s.servants, s.tally) ⟨rfl, fun _ => hc⟩).2
        obtain ⟨hL, hi⟩ := hi
        obtain ⟨hc', hg⟩ := hi hrun'
        exact counting_startupReap hL hc' hg hp fun c d h0 hf =>
          hon l rfl hst p c d (h0 ▸ hm) (hL ▸ hf)
      | _ => exact prepared_startupCheck hst hp.count fun _ => hc

theorem prepared_inquisitor (devs : List String) (t : Timeouts) :
    Prepared ret devs.length (inquisitor h devs t) :=
  prepared_startupCheck rfl rfl fun _ =>
    ⟨childrenOf_forkAll h.kernel _ ChildrenOf.fresh, Nat.zero_le _⟩

theorem prepared_of_honestReachable (hs : HonestReachable h ret devs t s) :
    Prepared ret devs.length s := by
  induction hs with
  | start => exact prepared_inquisitor devs t
  | step sig _ hon ih => exact prepared_step ih sig hon

/-- **Armed only over prepared disks.** When the kernel reports the prepare-only servants' exits
truly, in every reachable state of the steady loop at least `N / 2 + 1` of the prepare-only
servants forked had opened their disk, read a nonzero sector size, allocated this node's slot
and written its cleared mailbox. -/
theorem armed_only_over_prepared_disks {ans : Answers} {localUname : String}
    (hs : HonestReachable h (servant ans localUname .prepareOnly) devs t s)
    (hst : s.steady = true) :
    quorum devs.length ≤ (forksOf (.servant .prepareOnly) s.proc.log).countP
      fun f => servantSetup ans localUname f.1 f.2 = 0 := by
  simpa only [childExit_servant_prepareOnly] using (prepared_of_honestReachable hs).armed hst

/-- Three healthy disks, their prepare-only servants reaped in one drain. -/
theorem armed_over_three_prepared_disks :
    let h : Host := ⟨Kernel.sequential, fun _ => some ⟨5, 1, 10⟩, true⟩
    let ans : Answers := ⟨fun _ _ => true, fun _ _ => 512, fun _ _ _ => 0, fun _ _ _ => 0,
      fun _ _ => true, fun _ _ _ _ => 0⟩
    let s := step h (inquisitor h ["a", "b", "c"] ⟨5, 1, 10⟩)
      (.chld [(1, .exited 0), (2, .exited 0), (3, .exited 0)])
    (HonestReachable h (servant ans "node" .prepareOnly) ["a", "b", "c"] ⟨5, 1, 10⟩ s ∧
      s.steady = true) ∧
      quorum ["a", "b", "c"].length ≤ (forksOf (.servant .prepareOnly) s.proc.log).countP
        fun f => servantSetup ans "node" f.1 f.2 = 0 := by
  intro h ans s
  have hs : HonestReachable h (servant ans "node" .prepareOnly) ["a", "b", "c"] ⟨5, 1, 10⟩ s :=
    .step _ .start fun l hl _ q c d hm _ => by
      cases hl
      simp only [List.mem_cons, Prod.mk.injEq, Status.exited.injEq, List.mem_nil_iff,
        or_false] at hm
      rcases hm with ⟨-, rfl⟩ | ⟨-, rfl⟩ | ⟨-, rfl⟩ <;>
        simp [ans, servant, servantSetup, childExit]
  exact ⟨⟨hs, by decide⟩, armed_only_over_prepared_disks hs (by decide)⟩

end Startup

/-! ## The startup verdict -/

section Verdict

variable {h : Host} {devs : List String} {t T : Timeouts} {L : List Effect}

theorem startupCheck_of_ended (h : Host) {s : Inquisitor} (hend : s.proc.ending.isSome) :
    startupCheck h s = s :=
  if_pos (.inl hend)

theorem startupCheck_of_waiting (h : Host) {s : Inquisitor}
    (hlt : s.tally.finished < s.servantCount) : startupCheck h s = s :=
  if_pos (.inr hlt)

/-- A reap of a recorded child that exited with `c`, its header readable: the process runs on,
`servant_finished` counts it, and `good_servant` counts it if `c = 0`. -/
theorem startupReap_exited {o : Proc} {a : List Servant × Tally} {p c : Nat} {r : Servant}
    {T' : Timeouts} (hr : lookupServantByPid a.1 p = some r) (hT : h.header r.devname = some T') :
    (startupReap h o a p (.exited c)).1 = o ∧
      (startupReap h o a p (.exited c)).2.2.finished = a.2.finished + 1 ∧
      (startupReap h o a p (.exited c)).2.2.good = a.2.good + if c = 0 then 1 else 0 := by
  unfold startupReap
  simp only [hr]
  by_cases h0 : c = 0
  · subst h0
    simp [checkTimeoutInconsistent, headerRead, hT]
  · simp [h0]

/-- A startup drain part way through, every reap so far reported truly: the process runs with
the fork log `L` of the prepare-only servants on `devs`, whose headers all read `T`; the records
account for the unreaped children, and `servant_finished` and `good_servant` are exact. -/
structure Drain (ret : String → Nat → Option Int) (devs : List String) (T : Timeouts)
    (L : List Effect) (o : Proc) (a : List Servant × Tally) : Prop where
  log : o.log = L
  running : o.ending = none
  /-- No pid was forked twice. -/
  distinct : ((forksOf (.servant .prepareOnly) L).map Prod.snd).Nodup
  children : ChildrenOf (.servant .prepareOnly) o
  records : RecordsInv devs o a.1
  uniform : UniformTally T a.2
  finished : a.2.finished + o.children.length = devs.length
  good : a.2.good = reapedZero (.servant .prepareOnly) ret L o.children

theorem Drain.reap (hT : ∀ d ∈ devs, h.header d = some T) {o : Proc}
    {a : List Servant × Tally} (hd : Drain ret devs T L o a) {p c : Nat} (hp : p ∈ o.children)
    (hon : ∀ d, Effect.fork d p (.servant .prepareOnly) ∈ L → childExit (ret d p) = some c) :
    (startupReap h (o.reap p) a p (.exited c)).1 = o.reap p ∧
      Drain ret devs T L (startupReap h (o.reap p) a p (.exited c)).1
        (startupReap h (o.reap p) a p (.exited c)).2 := by
  obtain ⟨r, -, hr, -⟩ := lookupServantByPid_of_mem (hd.records.accounts.livePids_of_child hp)
  have hdev : r.devname ∈ devs :=
    hd.records.devnames ▸ List.mem_map_of_mem _ (mem_of_lookupServantByPid hr)
  obtain ⟨hproc, hfin, hgood⟩ := startupReap_exited (o := o.reap p) (c := c) hr (hT _ hdev)
  obtain ⟨e, he⟩ := hd.children.forked p hp
  have hz : reapedZero _ ret L (o.children.erase p) = _ :=
    reapedZero_erase_eq hd.distinct (fork_mem_forksOf (hd.log ▸ he)) hp hd.children.nodup
  have hri := recordsInv_startupReap (h := h) hd.records hp (.exited c)
  refine ⟨hproc, ?_⟩
  rw [hproc] at hri ⊢
  refine ⟨hd.log, hd.running, hd.distinct, hd.children.reap p, hri,
    (uniformTally_startupReap hT hd.records.devnames hd.uniform p _).2, ?_, ?_⟩
  · have := List.length_erase_of_mem hp
    have := List.length_pos_of_mem hp
    have := hd.finished
    simp only [Proc.reap_children, hfin]
    omega
  · simp [hgood, hd.good, hz, hon e (hd.log ▸ he)]

/-- **One drain of the startup loop.** When every entry of the drain is an exit reported truly
and its pids, followed by `R`, are the unreaped children, the drain keeps the counters exact and
leaves `R` unreaped. -/
theorem drain_waitLoop (hT : ∀ d ∈ devs, h.header d = some T) :
    ∀ (b : List (Nat × Status)) {o : Proc} {a : List Servant × Tally} {R : List Nat},
      Drain ret devs T L o a → (b.map Prod.fst ++ R).Perm o.children →
      (∀ x ∈ b, ∃ c, x.2 = .exited c) → Honest (.servant .prepareOnly) ret L b →
      Drain ret devs T L (waitLoop (startupReap h) o a b).1 (waitLoop (startupReap h) o a b).2 ∧
        (waitLoop (startupReap h) o a b).1.children.Perm R
  | [], _, _, _, hd, hperm, _, _ => ⟨hd, by simpa using hperm.symm⟩
  | (p, st) :: b, o, a, R, hd, hperm, hex, hon => by
    have hp : p ∈ o.children := hperm.subset (by simp)
    obtain ⟨c, rfl⟩ := hex (p, st) (List.mem_cons_self _ _)
    rw [waitLoop_cons_of_mem _ _ hd.running hp]
    obtain ⟨hproc, hd'⟩ := hd.reap hT hp fun d hf => hon p c d (List.mem_cons_self _ _) hf
    refine drain_waitLoop hT b hd' ?_ (fun x hx => hex x (List.mem_cons_of_mem _ hx))
      fun q c d hq => hon q c d (List.mem_cons_of_mem _ hq)
    rw [hproc, Proc.reap_children]
    simpa using hperm.erase p

/-- How the startup loop ends for `N` disks of which `K` set up: `exit(1)` after a failed fork,
or, with `good_servant` equal to `K`, the steady loop over a quorum or `return -1` short of one. -/
def Verdict (K N : Nat) (s : Inquisitor) : Prop :=
  s.proc.ending = some (.exit 1) ∨ (s.steady = true ∧ s.tally.good = K ∧ quorum N ≤ K) ∨
    (s.proc.ending = some (.returned (-1)) ∧ s.tally.good = K ∧ K < quorum N)

/-- Once reached, a verdict stands: an ended process does nothing and the steady loop stays. -/
theorem verdict_step {K N : Nat} {s : Inquisitor} (hv : Verdict K N s) (sig : Signal) :
    Verdict K N (step h s sig) := by
  cases hend : s.proc.ending with
  | some _ => rwa [step_of_ended sig (by simp [hend])]
  | none =>
    rcases hv with he | ⟨hst, hg, hq⟩ | ⟨he, -⟩
    · simp [hend] at he
    · obtain ⟨-, ht, hs, -⟩ := steadyStep_keeps h.kernel s sig
      rw [step_of_steady sig hend hst]
      exact .inr (.inl ⟨hs.trans hst, ht ▸ hg, hq⟩)
    · simp [hend] at he

theorem verdict_run {K N : Nat} : ∀ (sigs : List Signal) {s : Inquisitor}, Verdict K N s →
    Verdict K N (run h s sigs)
  | [], _, hv => hv
  | sig :: sigs, _, hv => verdict_run sigs (verdict_step hv sig)

/-- The startup loop still waiting for children, its drains exact so far. -/
structure Pending (ret : String → Nat → Option Int) (devs : List String) (T : Timeouts)
    (L : List Effect) (s : Inquisitor) : Prop where
  steady : s.steady = false
  count : s.servantCount = devs.length
  drain : Drain ret devs T L s.proc (s.servants, s.tally)
  waiting : s.proc.children ≠ []

/-- The loop test after an exact drain: with children left it waits on, and with none it decides
by the exact count of servants that exited 0. -/
theorem verdict_or_pending_startupCheck {s : Inquisitor} (hst : s.steady = false)
    (hN : s.servantCount = devs.length) (hd : Drain ret devs T L s.proc (s.servants, s.tally)) :
    Verdict (reapedZero (.servant .prepareOnly) ret L []) devs.length (startupCheck h s) ∨
      startupCheck h s = s ∧ Pending ret devs T L s := by
  have hfin : s.tally.finished + s.proc.children.length = devs.length := hd.finished
  by_cases hc : s.proc.children = []
  swap
  · have := List.length_pos.mpr hc
    exact .inr ⟨startupCheck_of_waiting h (by omega), hst, hN, hd, hc⟩
  left
  have hgood : s.tally.good = reapedZero (.servant .prepareOnly) ret L [] := hc ▸ hd.good
  have hu : s.tally.inconsistent = false := hd.uniform.1
  simp only [hc, List.length_nil, Nat.add_zero] at hfin
  unfold startupCheck
  rw [if_neg (by simp [hd.running, hfin, hN]), hN, hgood]
  by_cases hq : quorum devs.length ≤ reapedZero (.servant .prepareOnly) ret L []
  · rw [if_pos ⟨hq, by simp [hu]⟩]
    dsimp only
    rcases (hd.records.accounts.mono (u := s.proc.emit .makeDaemon) rfl
      (List.subset_append_left _ _)).foreach_deploy_pids (k := h.kernel)
        (by simpa using hd.running) with he | ⟨he, -⟩
    · rw [if_pos (by simp [he])]
      exact .inl he
    · rw [if_neg (by simp [he])]
      exact .inr (.inl ⟨rfl, hgood, hq⟩)
  · rw [if_neg fun h' => hq h'.1]
    exact .inr (.inr ⟨rfl, hgood, by omega⟩)

theorem verdict_or_pending_step (hT : ∀ d ∈ devs, h.header d = some T) {s : Inquisitor}
    (hs : Pending ret devs T L s) {b : List (Nat × Status)} {R : List Nat}
    (hperm : (b.map Prod.fst ++ R).Perm s.proc.children) (hex : ∀ x ∈ b, ∃ c, x.2 = .exited c)
    (hon : Honest (.servant .prepareOnly) ret L b) :
    Verdict (reapedZero (.servant .prepareOnly) ret L []) devs.length (step h s (.chld b)) ∨
      Pending ret devs T L (step h s (.chld b)) ∧ (step h s (.chld b)).proc.children.Perm R := by
  obtain ⟨hd, hR⟩ := drain_waitLoop (h := h) hT b hs.drain hperm hex hon
  rw [step_of_startup _ hs.drain.running hs.steady]
  simp only [startupStep]
  rcases verdict_or_pending_startupCheck (h := h) (s := { s with
      proc := (waitLoop (startupReap h) s.proc (s.servants, s.tally) b).1,
      servants := (waitLoop (startupReap h) s.proc (s.servants, s.tally) b).2.1,
      tally := (waitLoop (startupReap h) s.proc (s.servants, s.tally) b).2.2 })
    hs.steady hs.count hd with hv | ⟨he, hp⟩
  · exact .inl hv
  · rw [he]
    exact .inr ⟨hp, hR⟩

/-- `inquisitor()` up to its first wait: a failed fork, or no disk, is a verdict already;
otherwise every prepare-only servant is an unreaped child and both counters are zero. -/
theorem verdict_or_pending_inquisitor (devs : List String) (t : Timeouts) :
    Verdict (reapedZero (.servant .prepareOnly) ret (inquisitor h devs t).proc.log [])
        devs.length (inquisitor h devs t) ∨
      Pending ret devs T (inquisitor h devs t).proc.log (inquisitor h devs t) := by
  rcases forkAll_cases (k := h.kernel) (j := .servant .prepareOnly) Proc.fresh
    (devs.map (⟨·, 0⟩)) rfl List.nodup_nil with he | ⟨hrun, hnd, hlen⟩
  · refine .inl (.inl ?_)
    simp only [inquisitor]
    rw [startupCheck_of_ended h] <;> simp [he]
  cases devs with
  | nil => exact .inl (.inr (.inr ⟨rfl, rfl, Nat.zero_lt_one⟩))
  | cons d ds =>
    have hi : Sound (d :: ds) (inquisitor h (d :: ds) t) := sound_inquisitor t
    have hfo := forksOf_forkAll (j := .servant .prepareOnly) h.kernel (o := Proc.fresh)
      ((d :: ds).map (⟨·, 0⟩)) rfl
    simp only [inquisitor] at hi ⊢
    simp (disch := simp) only [startupCheck_of_waiting] at hi ⊢
    refine .inr ⟨rfl, rfl, ⟨rfl, hrun, hfo ▸ List.nodup_reverse.mpr hnd,
      childrenOf_forkAll h.kernel _ .fresh, hi hrun, ⟨rfl, fun h0 => absurd h0 (lt_irrefl 0)⟩,
      by simp only [hlen]; simp [Proc.fresh], ?_⟩,
      List.ne_nil_of_length_pos (by simp only [hlen]; simp [Proc.fresh])⟩
    refine (List.countP_eq_zero.mpr fun f hf => ?_).symm
    have hc : f.2 ∈ (forkAll h.kernel (.servant .prepareOnly) Proc.fresh
        ((d :: ds).map (⟨·, 0⟩))).1.children := by
      rw [← List.mem_reverse, ← hfo]
      exact List.mem_map_of_mem _ hf
    simp only [decide_eq_true_eq, not_and, not_not]
    exact fun _ => hc

/-- **The startup drains, run to the end.** From a verdict, or from a pending startup whose
unreaped children are the pids of the drains to come, each reported as an exit and truly, the
drains end in a verdict on the exact count. -/
theorem verdict_of_drains (hT : ∀ d ∈ devs, h.header d = some T) :
    ∀ (bs : List (List (Nat × Status))) {s : Inquisitor},
      (Verdict (reapedZero (.servant .prepareOnly) ret L []) devs.length s ∨
        Pending ret devs T L s ∧ s.proc.children.Perm (bs.flatten.map Prod.fst)) →
      (∀ x ∈ bs.flatten, ∃ c, x.2 = .exited c) →
      (∀ b ∈ bs, Honest (.servant .prepareOnly) ret L b) →
      Verdict (reapedZero (.servant .prepareOnly) ret L []) devs.length
        (run h s (bs.map .chld))
  | [], _, .inl hv, _, _ => hv
  | [], _, .inr ⟨hp, hperm⟩, _, _ => absurd (List.perm_nil.mp hperm) hp.waiting
  | b :: bs, s, hs, hex, hon => by
    rw [List.map_cons, run_cons]
    rcases hs with hv | ⟨hp, hperm⟩
    · exact verdict_run _ (verdict_step hv _)
    · refine verdict_of_drains hT bs (verdict_or_pending_step hT hp (by simpa using hperm.symm)
        (fun x hx => hex x (by simp [hx])) (hon b (List.mem_cons_self _ _)))
        (fun x hx => hex x (List.mem_append_right _ hx))
        fun b' hb' => hon b' (List.mem_cons_of_mem _ hb')

end Verdict

section Messenger

variable {N : Nat} {L : List Effect}

/-- What the messenger's counters mean under an honest kernel, for `N` disks whose children, run
`ret` and were forked into the log `L`. -/
structure Delivering (ret : String → Nat → Option Int) (N : Nat) (L : List Effect)
    (m : Messenger) : Prop where
  count : m.servantCount = N
  log : m.proc.log = L
  /-- While it waits, the unreaped children are message children and `successed_delivery`
  counts reaped ones that exit 0. -/
  counting : m.proc.ending = none →
    ChildrenOf .slotMsg m.proc ∧ m.delivered ≤ reapedZero .slotMsg ret L m.proc.children
  /-- It returns 0 only over a quorum of children that exit 0. -/
  returned : m.proc.ending = some (.returned 0) →
    quorum N ≤ (forksOf .slotMsg L).countP fun f => childExit (ret f.1 f.2) = some 0

theorem delivering_messengerCheck {m : Messenger} (hN : m.servantCount = N) (hL : m.proc.log = L)
    (hc : m.proc.ending = none →
      ChildrenOf .slotMsg m.proc ∧ m.delivered ≤ reapedZero .slotMsg ret L m.proc.children)
    (hr : m.proc.ending = some (.returned 0) →
      quorum N ≤ (forksOf .slotMsg L).countP fun f => childExit (ret f.1 f.2) = some 0) :
    Delivering ret N L (messengerCheck m) := by
  unfold messengerCheck
  split
  · exact ⟨hN, hL, hc, hr⟩
  · next hw =>
    have hrun : m.proc.ending = none := by simpa using (not_or.mp hw).1
    refine ⟨hN, hL, fun h' => by simp at h', fun h' => ?_⟩
    simp only [Proc.halt_ending, Option.some.injEq, Ending.returned.injEq] at h'
    split at h'
    · next hq => exact (hN ▸ hq).trans ((hc hrun).2.trans (reapedZero_le _ _))
    · simp at h'

theorem counting_messengerReap {o : Proc} {a : Nat × Nat} {p : Nat} {st : Status}
    (hrun : o.ending = none) (hc : ChildrenOf .slotMsg o)
    (hd : a.2 ≤ reapedZero .slotMsg ret o.log o.children) (hp : p ∈ o.children)
    (hon : ∀ c d, st = .exited c → Effect.fork d p .slotMsg ∈ o.log →
      childExit (ret d p) = some c) :
    (messengerReap N (o.reap p) a p st).1.log = o.log ∧
      ((messengerReap N (o.reap p) a p st).1.ending = none →
        ChildrenOf .slotMsg (messengerReap N (o.reap p) a p st).1 ∧
          (messengerReap N (o.reap p) a p st).2.2 ≤
            reapedZero .slotMsg ret o.log (messengerReap N (o.reap p) a p st).1.children) ∧
      ((messengerReap N (o.reap p) a p st).1.ending = some (.returned 0) →
        quorum N ≤
          (forksOf .slotMsg o.log).countP fun f => childExit (ret f.1 f.2) = some 0) := by
  have hle : (if st = .exited 0 then a.2 + 1 else a.2) ≤
      reapedZero .slotMsg ret o.log (o.children.erase p) :=
    le_reapedZero_reap hc hp hon hd le_rfl
  unfold messengerReap
  dsimp only
  by_cases hq : (if st = .exited 0 then a.2 + 1 else a.2) ≥ quorum N
  · rw [if_pos hq]
    exact ⟨rfl, fun h' => by simp at h', fun _ => hq.trans (hle.trans (reapedZero_le _ _))⟩
  · rw [if_neg hq]
    exact ⟨rfl, fun _ => ⟨hc.reap p, hle⟩, fun h' => by simp [hrun] at h'⟩

theorem delivering_messengerStep {m : Messenger} {b : List (Nat × Status)}
    (hm : Delivering ret N L m) (hon : Honest .slotMsg ret L b) :
    Delivering ret N L (messengerStep m b) := by
  obtain ⟨rfl, rfl, hc, hr⟩ := hm
  unfold messengerStep
  split
  · exact ⟨rfl, rfl, hc, hr⟩
  · have := @waitLoop_induction_mem (Nat × Nat) (messengerReap m.servantCount)
      (fun o a => o.log = m.proc.log ∧
        (o.ending = none →
          ChildrenOf .slotMsg o ∧ a.2 ≤ reapedZero .slotMsg ret m.proc.log o.children) ∧
        (o.ending = some (.returned 0) → quorum m.servantCount ≤
          (forksOf .slotMsg m.proc.log).countP fun f => childExit (ret f.1 f.2) = some 0)) b
      (fun o a p st hmem ⟨hL, hc, _⟩ hrun hp => by
        rw [← hL]
        obtain ⟨hc, hd⟩ := hc hrun
        exact counting_messengerReap hrun hc (hL ▸ hd) hp
          fun c d h0 hf => hon p c d (h0 ▸ hmem) (hL ▸ hf))
      m.proc (m.finished, m.delivered) ⟨rfl, hc, hr⟩
    exact delivering_messengerCheck rfl this.1 this.2.1 this.2.2

theorem delivering_foldl : ∀ (bs : List (List (Nat × Status))) {m : Messenger},
    Delivering ret N L m → (∀ b ∈ bs, Honest .slotMsg ret L b) →
      Delivering ret N L (bs.foldl messengerStep m)
  | [], _, hm, _ => hm
  | b :: bs, _, hm, hon =>
    delivering_foldl bs (delivering_messengerStep hm (hon b (List.mem_cons_self _ _)))
      fun b' hb' => hon b' (List.mem_cons_of_mem _ hb')

theorem delivering_messenger (k : Kernel) (devs : List String) :
    Delivering ret devs.length (forkAll k .slotMsg Proc.fresh (devs.map (⟨·, 0⟩))).1.log
      (messenger k devs) :=
  delivering_messengerCheck rfl rfl (fun _ => ⟨childrenOf_forkAll k _ .fresh, Nat.zero_le _⟩)
    fun h' => absurd h' ((exits_forkAll k _ Proc.fresh _).not_returned (by simp [Proc.fresh]) 0)

/-- **The messenger's 0 is a quorum of deliveries.** When the kernel reports the message
children's exits truly, whatever the drains return, `messenger` returns 0 only after at least
`N / 2 + 1` of the children it forked opened their disk and had `slot_msg` return something
other than `-1`. -/
theorem messenger_returns_zero_only_over_delivered_quorum (k : Kernel) (devs : List String)
    (ans : Answers) (name msg : String) (bs : List (List (Nat × Status)))
    (hon : ∀ b ∈ bs, Honest .slotMsg (fun d q => some (slotMsgWrapper ans name msg d q))
      (messenger k devs).proc.log b)
    (h0 : (bs.foldl messengerStep (messenger k devs)).proc.ending = some (.returned 0)) :
    quorum devs.length ≤ (forksOf .slotMsg (messenger k devs).proc.log).countP
      fun f => slotMsgWrapper ans name msg f.1 f.2 ≠ -1 := by
  have hm : Delivering (fun d q => some (slotMsgWrapper ans name msg d q)) devs.length _
      (messenger k devs) := delivering_messenger k devs
  rw [hm.log] at hon ⊢
  simpa only [childExit_some_eq_zero] using (delivering_foldl bs hm hon).returned h0

/-- Three disks, two deliveries reaped in one drain. -/
theorem messenger_returns_zero_over_two_deliveries :
    let ans : Answers := ⟨fun _ _ => true, fun _ _ => 512, fun _ _ _ => 0, fun _ _ _ => 0,
      fun _ _ => true, fun _ _ _ _ => 0⟩
    let bs := [[(1, Status.exited 0), (2, .exited 0)]]
    ((∀ b ∈ bs, Honest .slotMsg (fun d q => some (slotMsgWrapper ans "b" "reset" d q))
        (messenger Kernel.sequential ["a", "b", "c"]).proc.log b) ∧
      (bs.foldl messengerStep (messenger Kernel.sequential ["a", "b", "c"])).proc.ending =
        some (.returned 0)) ∧
      quorum ["a", "b", "c"].length ≤
        (forksOf .slotMsg (messenger Kernel.sequential ["a", "b", "c"]).proc.log).countP
          fun f => slotMsgWrapper ans "b" "reset" f.1 f.2 ≠ -1 := by
  intro ans bs
  have hon : ∀ b ∈ bs, Honest .slotMsg (fun d q => some (slotMsgWrapper ans "b" "reset" d q))
      (messenger Kernel.sequential ["a", "b", "c"]).proc.log b := by
    intro b hb q c d hm _
    simp only [bs, List.mem_singleton] at hb
    subst hb
    simp only [List.mem_cons, Prod.mk.injEq, Status.exited.injEq, List.mem_nil_iff,
      or_false] at hm
    rcases hm with ⟨-, rfl⟩ | ⟨-, rfl⟩ <;> simp [ans, slotMsgWrapper, childExit]
  exact ⟨⟨hon, by decide⟩, messenger_returns_zero_only_over_delivered_quorum _ _ _ _ _ _ hon
    (by decide)⟩

end Messenger

end Sbd
