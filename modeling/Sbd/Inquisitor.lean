import Sbd.Servants
import Sbd.Reports

/-!
# The inquisitor

`inquisitor()` forks one servant per configured disk and then lives in two loops over
`sigwaitinfo`. The *startup* loop runs the servants in `SERVANT_PREPARE_ONLY` mode, reaps them,
counts the good ones and compares the timeouts in their headers; it ends in `return -1` or in
`make_daemon`, a redeploy of every servant in `SERVANT_DO_FULLJOB` mode and the arming of the
watchdog. The *steady* loop then never ends by itself: `SIGCHLD` respawns or forgets servants,
`SIG_LIVENESS` counts towards the quorum that tickles the watchdog, `SIGUSR1` redeploys,
`SIG_EXITREQ` starts the exit cascade.

## State

`Inquisitor` holds the function's locals and the globals it touches, next to the process as the
kernel sees it (`Proc`). One `step` is one `sigwaitinfo` and the handling of what it returned;
`Reachable` closes the start state under `step`. A process that has ended takes no step.

## What the environment chooses

Which signal arrives next, and, for `SIGCHLD`, which children the `WNOHANG` loop reaps with
which status: the signal carries that list. The kernel reaps only the caller's children, so
an entry naming anything else is not a `waitpid` result and the loop passes over it. The
kernel chooses the pids of forks (`Kernel`), and the disks their headers (`Host.header`).
-/

namespace Sbd

/-- The signals `inquisitor` waits for, with what the handler learns along with them. -/
inductive Signal where
  /-- `SIGCHLD`, with the `(pid, status)` pairs the handler's `waitpid` calls return, in
  order. -/
  | chld (reaped : List (Nat × Status))
  /-- `SIG_LIVENESS`, with `si_pid`. -/
  | liveness (pid : Nat)
  | exitreq
  | test
  | usr1
  | usr2
  deriving DecidableEq, Repr

/-- The node the inquisitor runs on. -/
structure Host where
  kernel : Kernel
  /-- The timeout triple in each device's header; `none` where the device cannot be opened or
  its header read. -/
  header : String → Option Timeouts
  /-- `watchdog_use`, set by `-W`. -/
  watchdogUse : Bool

/-- The counters of the startup loop and the globals it rewrites: `servant_finished`,
`good_servant`, `inconsistent`, and the global timeouts. -/
structure Tally where
  finished : Nat
  good : Nat
  inconsistent : Bool
  timeouts : Timeouts
  deriving DecidableEq, Repr

/-- The locals of `inquisitor()` and the globals it reads and writes, with its process. -/
structure Inquisitor where
  /-- `servants_leader`. -/
  servants : List Servant
  /-- `reports` and `has_new`. -/
  reports : Reports
  exiting : Bool
  servantCount : Nat
  tally : Tally
  /-- Validation passed: the process is in the `while (1)` loop. -/
  steady : Bool
  proc : Proc

/-! ## Walking the servant list -/

/-- `s->pid = assign_servant(s->devname, ...)` for every record: the fork loops of `inquisitor`
and `messenger`. -/
def forkAll (k : Kernel) (job : Job) : Proc → List Servant → Proc × List Servant
  | o, [] => (o, [])
  | o, s :: ss =>
    match assignServant k o s.devname job with
    | (o', some p) =>
      let r := forkAll k job o' ss
      (r.1, { s with pid := p } :: r.2)
    | (o', none) => (o', s :: ss)

/-- One record of `foreach_servants`: a live servant is killed on `SERVANT_CALLBACK`; a record
with no live servant gets a new one on `SERVANT_DEPLOY`. -/
def visitServant (k : Kernel) (mission : Mission) (o : Proc) (s : Servant) : Proc × Servant :=
  if s.pid ≠ 0 ∧ o.alive k s.pid then
    (if mission = .callback then o.emit (.kill s.pid) else o, s)
  else if mission = .deploy then
    match assignServant k o s.devname (.servant .fullJob) with
    | (o', some p) => (o', { s with pid := p })
    | (o', none) => (o', s)
  else (o, s)

/-- `foreach_servants`. -/
def foreachServants (k : Kernel) (mission : Mission) : Proc → List Servant → Proc × List Servant
  | o, [] => (o, [])
  | o, s :: ss =>
    let v := visitServant k mission o s
    if v.1.ending.isSome then (v.1, v.2 :: ss)
    else
      let r := foreachServants k mission v.1 ss
      (r.1, v.2 :: r.2)

/-- `check_all_dead`: `0` at the first record whose pid answers the probe, `sigqueue(pid, 0, ...)`
not failing with `ESRCH`. The source's comments are the other way round (`/*live*/` stands on the
`ESRCH` branch, `/*dead*/` on the other); the model follows the code. -/
def checkAllDead (k : Kernel) (o : Proc) : List Servant → Bool
  | [] => true
  | s :: ss => if s.pid ≠ 0 ∧ o.alive k s.pid then false else checkAllDead k o ss

/-- `restart_servant_by_pid`. -/
def restartServantByPid (k : Kernel) (o : Proc) (ss : List Servant) (pid : Nat) :
    Proc × List Servant :=
  match lookupServantByPid ss pid with
  | none => (o, ss)
  | some s =>
    match assignServant k o s.devname (.servant .fullJob) with
    | (o', some q) => (o', setPid ss pid q)
    | (o', none) => (o', ss)

/-- Modelled from the spec: `header_read`, which `sbd-md.c` calls but does not define, reads the
device's header; the timeout triple in it becomes the global `timeout_watchdog`, `timeout_loop`
and `timeout_msgwait`. It fails when the device cannot be opened or its header read. -/
def headerRead (h : Host) (devname : String) : Option Timeouts := h.header devname

/-- `check_timeout_inconsistent`: the globals after `header_read` of `devname`, and whether they
differ from `timeouts`, the globals before. `none`: the device could not be read, and the
process calls `exit(1)`. -/
def checkTimeoutInconsistent (h : Host) (timeouts : Timeouts) (devname : String) :
    Option (Timeouts × Bool) :=
  (headerRead h devname).map fun t => (t, t ≠ timeouts)

/-! ## The handlers -/

/-- The `while ((pid = waitpid(-1, &status, WNOHANG)))` loop: `body` handles each reaped child,
threading the process and the handler's own variables `a`. -/
def waitLoop {α : Type} (body : Proc → α → Nat → Status → Proc × α) :
    Proc → α → List (Nat × Status) → Proc × α
  | o, a, [] => (o, a)
  | o, a, (pid, st) :: rest =>
    if o.ending.isSome then (o, a)
    else if pid ∈ o.children then
      let r := body (o.reap pid) a pid st
      waitLoop body r.1 r.2 rest
    else waitLoop body o a rest

/-- One reaped child in the startup loop. -/
def startupReap (h : Host) (o : Proc) (a : List Servant × Tally) (pid : Nat) (st : Status) :
    Proc × (List Servant × Tally) :=
  match lookupServantByPid a.1 pid with
  | none => (o, a)
  | some r =>
    let ss := cleanupServantByPid a.1 pid
    let t := { a.2 with finished := a.2.finished + 1 }
    if st = .exited 0 then
      match checkTimeoutInconsistent h t.timeouts r.devname with
      | none => (o.halt (.exit 1), ss, { t with good := t.good + 1 })
      | some (tm, changed) =>
        (o, ss, { t with good := t.good + 1, timeouts := tm,
                         inconsistent := if changed then (if t.good + 1 = 1 then false else true)
                           else false })
    else (o, ss, t)

/-- The test of the startup loop, `while (servant_finished < servant_count)`, and what follows
it: validation, `make_daemon`, `foreach_servants(SERVANT_DEPLOY)` and `watchdog_init`. -/
def startupCheck (h : Host) (s : Inquisitor) : Inquisitor :=
  if s.proc.ending.isSome ∨ s.tally.finished < s.servantCount then s
  else if s.tally.good ≥ quorum s.servantCount ∧ !s.tally.inconsistent then
    let r := foreachServants h.kernel .deploy (s.proc.emit .makeDaemon) s.servants
    if r.1.ending.isSome then { s with proc := r.1, servants := r.2 }
    else { s with proc := if h.watchdogUse then r.1.emit .watchdogInit else r.1, servants := r.2,
                  steady := true }
  else { s with proc := s.proc.halt (.returned (-1)) }

/-- One reaped child in the steady loop. -/
def steadyReap (k : Kernel) (exiting : Bool) (o : Proc) (ss : List Servant) (pid : Nat)
    (st : Status) : Proc × List Servant :=
  if exiting then
    let ss := cleanupServantByPid ss pid
    (if checkAllDead k o ss then o.halt (.exit 0) else o, ss)
  else
    match st with
    | .exited _ => (o, cleanupServantByPid ss pid)
    | .signaled sig =>
      if sig ≠ sigKill then restartServantByPid k o ss pid
      else (o, cleanupServantByPid ss pid)

/-- One signal of the steady loop. -/
def steadyStep (k : Kernel) (s : Inquisitor) : Signal → Inquisitor
  | .exitreq =>
    let r := foreachServants k .callback s.proc s.servants
    { s with proc := r.1.emit .watchdogClose, servants := r.2, exiting := true }
  | .chld reaped =>
    let r := waitLoop (steadyReap k s.exiting) s.proc s.servants reaped
    { s with proc := r.1, servants := r.2 }
  | .liveness pid =>
    if s.exiting then s
    else
      let r := s.reports.liveness pid
      { s with reports := r.1, proc := if r.2 then s.proc.emit .watchdogTickle else s.proc }
  | .test => s
  | .usr1 =>
    if s.exiting then s
    else
      let r := foreachServants k .deploy (s.proc.emit .watchdogTickle) s.servants
      if r.1.ending.isSome then { s with proc := r.1, servants := r.2 }
      else { s with proc := r.1.emit .watchdogTickle, servants := r.2, reports := s.reports.clear }
  | .usr2 => s

/-- One signal of the startup loop: only `SIGCHLD` is handled, then the loop test runs. -/
def startupStep (h : Host) (s : Inquisitor) : Signal → Inquisitor
  | .chld reaped =>
    let r := waitLoop (startupReap h) s.proc (s.servants, s.tally) reaped
    startupCheck h { s with proc := r.1, servants := r.2.1, tally := r.2.2 }
  | _ => startupCheck h s

/-- One `sigwaitinfo` and its handling. -/
def step (h : Host) (s : Inquisitor) (sig : Signal) : Inquisitor :=
  if s.proc.ending.isSome then s
  else if s.steady then steadyStep h.kernel s sig
  else startupStep h s sig

/-- `inquisitor()` up to its first `sigwaitinfo`, on the list `main` built with
`recruit_servant(optarg, 0)` and the timeouts it set. `has_new` starts unset in the source; every
scan of a nonempty array sets it before it is read. -/
def inquisitor (h : Host) (devs : List String) (timeouts : Timeouts) : Inquisitor :=
  let r := forkAll h.kernel (.servant .prepareOnly) Proc.fresh (devs.map (⟨·, 0⟩))
  startupCheck h
    { servants := r.2, reports := ⟨List.replicate devs.length 0, false⟩, exiting := false,
      servantCount := devs.length, tally := ⟨0, 0, false, timeouts⟩, steady := false,
      proc := r.1 }

/-- The states the inquisitor started on `devs` with `timeouts` can reach. -/
inductive Reachable (h : Host) (devs : List String) (timeouts : Timeouts) : Inquisitor → Prop
  | start : Reachable h devs timeouts (inquisitor h devs timeouts)
  | step {s : Inquisitor} (sig : Signal) :
      Reachable h devs timeouts s → Reachable h devs timeouts (step h s sig)

/-- The signals `sigs`, one after another. -/
def run (h : Host) (s : Inquisitor) (sigs : List Signal) : Inquisitor := sigs.foldl (step h) s

/-- Whatever each reaped child's handling keeps, the whole `waitpid` loop keeps; the handling may
use that the child's entry is one of the drain's. -/
theorem waitLoop_induction_mem {α : Type} {body : Proc → α → Nat → Status → Proc × α}
    (P : Proc → α → Prop) {l : List (Nat × Status)}
    (hbody : ∀ o a pid st, (pid, st) ∈ l → P o a → o.ending = none → pid ∈ o.children →
      P (body (o.reap pid) a pid st).1 (body (o.reap pid) a pid st).2) :
    ∀ (o : Proc) (a : α), P o a → P (waitLoop body o a l).1 (waitLoop body o a l).2 := by
  induction l with
  | nil => exact fun _ _ h => h
  | cons x rest ih =>
    obtain ⟨pid, st⟩ := x
    have ih := ih fun o a pid st hm => hbody o a pid st (List.mem_cons_of_mem _ hm)
    intro o a h
    unfold waitLoop
    split
    · exact h
    · next hend =>
      split
      · exact ih _ _ (hbody o a pid st (List.mem_cons_self _ _) h (by simpa using hend) ‹_›)
      · exact ih o a h

theorem waitLoop_induction {α : Type} {body : Proc → α → Nat → Status → Proc × α}
    (P : Proc → α → Prop)
    (hbody : ∀ o a pid st, P o a → o.ending = none → pid ∈ o.children →
      P (body (o.reap pid) a pid st).1 (body (o.reap pid) a pid st).2)
    (o : Proc) (a : α) (l : List (Nat × Status)) (h : P o a) :
    P (waitLoop body o a l).1 (waitLoop body o a l).2 :=
  waitLoop_induction_mem P (fun o a pid st _ => hbody o a pid st) o a h

theorem waitLoop_cons_of_mem {α : Type} {body : Proc → α → Nat → Status → Proc × α} {o : Proc}
    {a : α} {pid : Nat} (st : Status) (rest : List (Nat × Status)) (hrun : o.ending = none)
    (hp : pid ∈ o.children) :
    waitLoop body o a ((pid, st) :: rest) =
      waitLoop body (body (o.reap pid) a pid st).1 (body (o.reap pid) a pid st).2 rest := by
  simp [waitLoop, hrun, hp]

theorem waitLoop_of_ended {α : Type} {body : Proc → α → Nat → Status → Proc × α} {o : Proc}
    (a : α) (l : List (Nat × Status)) (hend : o.ending.isSome) : waitLoop body o a l = (o, a) := by
  cases l <;> simp [waitLoop, hend]

@[simp] theorem startupCheck_reports (h : Host) (s : Inquisitor) :
    (startupCheck h s).reports = s.reports := by
  simp only [startupCheck]
  split_ifs <;> rfl

@[simp] theorem startupCheck_tally (h : Host) (s : Inquisitor) :
    (startupCheck h s).tally = s.tally := by
  simp only [startupCheck]
  split_ifs <;> rfl

@[simp] theorem startupCheck_servantCount (h : Host) (s : Inquisitor) :
    (startupCheck h s).servantCount = s.servantCount := by
  simp only [startupCheck]
  split_ifs <;> rfl

/-- What the loop test can do: nothing; end the process, by `return -1` or by a failed fork; or
enter the steady loop, only from a running process with a quorum of good servants. -/
theorem startupCheck_cases (h : Host) (s : Inquisitor) :
    startupCheck h s = s ∨
      (startupCheck h s).steady = s.steady ∧ (startupCheck h s).proc.ending.isSome ∨
      (startupCheck h s).steady = true ∧ s.proc.ending = none ∧
        quorum s.servantCount ≤ s.tally.good := by
  unfold startupCheck
  split
  · exact .inl rfl
  · next hw =>
    split
    · next hq =>
      dsimp only
      split
      · exact .inr (.inl ⟨rfl, ‹_›⟩)
      · exact .inr (.inr ⟨rfl, by simpa using (not_or.mp hw).1, hq.1⟩)
    · exact .inr (.inl ⟨rfl, rfl⟩)

theorem step_of_ended {h : Host} {s : Inquisitor} (sig : Signal) (hs : s.proc.ending.isSome) :
    step h s sig = s := by
  simp [step, hs]

theorem step_of_steady {h : Host} {s : Inquisitor} (sig : Signal) (hrun : s.proc.ending = none)
    (hs : s.steady = true) : step h s sig = steadyStep h.kernel s sig := by
  simp [step, hrun, hs]

theorem step_of_startup {h : Host} {s : Inquisitor} (sig : Signal) (hrun : s.proc.ending = none)
    (hs : s.steady = false) : step h s sig = startupStep h s sig := by
  simp [step, hrun, hs]

theorem Reachable.run {h : Host} {devs : List String} {timeouts : Timeouts} {s : Inquisitor}
    (hs : Reachable h devs timeouts s) (sigs : List Signal) :
    Reachable h devs timeouts (run h s sigs) := by
  induction sigs generalizing s with
  | nil => exact hs
  | cons sig sigs ih => exact ih (hs.step sig)

theorem reachable_run (h : Host) (devs : List String) (timeouts : Timeouts) (sigs : List Signal) :
    Reachable h devs timeouts (run h (inquisitor h devs timeouts) sigs) := by
  induction sigs using List.reverseRecOn with
  | nil => exact .start
  | append_singleton sigs sig ih => simpa [run, List.foldl_append] using ih.step sig

end Sbd
