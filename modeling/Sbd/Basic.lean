import Mathlib.Algebra.Order.BigOperators.Group.List
import Mathlib.Algebra.Order.Ring.Nat

/-!
# Processes, signals and the kernel of the multi-disk SBD daemon

`sbd-md.c` runs one *inquisitor* process and one *servant* child per configured disk. The
inquisitor shares no memory with its servants: it forks them, waits for signals, and reaps them.
This file fixes the vocabulary the rest of the model shares: the servant records, how a reaped
child ended, what a process does that can be seen from outside it, and what the kernel answers
when the process forks or probes a pid.

## The kernel

A `fork` is answered by the kernel, not by the program. `Kernel.fork n cs` is the pid of the
`n`-th fork, made while `cs` are the caller's unreaped children. The structure carries the one
fact about pids the code relies on — a pid handed out is never `0` and never that of a child
still waiting to be reaped — so no theorem has to assume it. Indexing by `n` lets two forks made
over the same children get different answers, so every sequence of results the real kernel can
produce is the answer of some `Kernel`.

A `waitpid` is answered by the environment instead: a `SIGCHLD` carries the list of what the
handler's `WNOHANG` calls return (see `Sbd.Inquisitor`).
-/

namespace Sbd

/-- `SIGKILL`, the one termination signal after which the inquisitor does not respawn. -/
def sigKill : Nat := 9

/-- The majority of `n` configured disks, `n / 2 + 1`, as `inquisitor` and `messenger` compute
it. -/
def quorum (n : Nat) : Nat := n / 2 + 1

/-- How a reaped child ended, as `waitpid` without `WUNTRACED` reports it. -/
inductive Status where
  /-- `WIFEXITED`, with `WEXITSTATUS`. -/
  | exited (code : Nat)
  /-- `WIFSIGNALED`, with `WTERMSIG`. -/
  | signaled (sig : Nat)
  deriving DecidableEq, Repr

/-- `SERVANT_DO_FULLJOB` and `SERVANT_PREPARE_ONLY`. -/
inductive Mode where
  | fullJob
  | prepareOnly
  deriving DecidableEq, Repr

/-- The function a forked child runs: `servant` in a mode, or `slot_msg_wrapper`. -/
inductive Job where
  | servant (mode : Mode)
  | slotMsg
  deriving DecidableEq, Repr

/-- `SERVANT_DEPLOY` and `SERVANT_CALLBACK`, the two missions of `foreach_servants`. -/
inductive Mission where
  | deploy
  | callback
  deriving DecidableEq, Repr

/-- `struct servants_list_item` without its `next` pointer: the list is a Lean list. -/
structure Servant where
  /-- The configured device. -/
  devname : String
  /-- The pid of the child serving the device; `0` when none does. -/
  pid : Nat
  deriving DecidableEq, Repr

/-- The globals `timeout_watchdog`, `timeout_loop` and `timeout_msgwait`. -/
structure Timeouts where
  watchdog : Nat
  loop : Nat
  msgwait : Nat
  deriving DecidableEq, Repr

/-- What a process does that can be seen from outside it. -/
inductive Effect where
  /-- `assign_servant` forked a child with this pid to run `job` on `devname`. -/
  | fork (devname : String) (pid : Nat) (job : Job)
  /-- `sigqueue(pid, SIGKILL, ...)`. -/
  | kill (pid : Nat)
  | watchdogTickle
  | watchdogClose
  | watchdogInit
  | makeDaemon
  deriving DecidableEq, Repr

/-- How a process ended. -/
inductive Ending where
  /-- `exit(code)`. -/
  | exit (code : Nat)
  /-- The modelled function returned `rc` to `main`. -/
  | returned (rc : Int)
  deriving DecidableEq, Repr

/-- A process as the kernel sees it. -/
structure Proc where
  /-- Pids of forked children not yet reaped. -/
  children : List Nat
  /-- Forks made so far. -/
  forks : Nat
  /-- Everything the process did that shows outside it, oldest first. -/
  log : List Effect
  /-- Set once the process has ended; nothing runs after. -/
  ending : Option Ending
  deriving DecidableEq, Repr

/-- The kernel's answers to `fork` and to the probe `sigqueue(pid, 0, ...)`. -/
structure Kernel where
  /-- The pid of the `n`-th fork made while `cs` are the unreaped children; `none` if it
  fails. -/
  fork : Nat → List Nat → Option Nat
  /-- A pid handed out is never `0` and never one an unreaped child still holds. -/
  fork_fresh : ∀ {n cs p}, fork n cs = some p → 0 < p ∧ p ∉ cs
  /-- Whether a pid that is none of the caller's unreaped children names a process. -/
  foreign : Nat → Bool

/-- A kernel that numbers forks from `1`: the `n`-th fork gets pid `n + 1`, unless an unreaped
child still holds it. -/
def Kernel.sequential : Kernel where
  fork n cs := some (if n + 1 ∈ cs then cs.sum + 1 else n + 1)
  fork_fresh := by
    intro n cs p h
    simp only [Option.some.injEq] at h
    subst h
    split
    · exact ⟨Nat.succ_pos _, fun hm => by have := List.le_sum_of_mem hm; omega⟩
    · next hn => exact ⟨Nat.succ_pos _, hn⟩
  foreign _ := false

namespace Proc

/-- A process that has forked nothing and done nothing yet. -/
def fresh : Proc := ⟨[], 0, [], none⟩

/-- Record an effect. -/
def emit (o : Proc) (e : Effect) : Proc := { o with log := o.log ++ [e] }

/-- A `waitpid` returned `pid`: the child leaves the process table. -/
def reap (o : Proc) (pid : Nat) : Proc := { o with children := o.children.erase pid }

/-- End the process. -/
def halt (o : Proc) (e : Ending) : Proc := { o with ending := some e }

/-- `sigqueue(pid, 0, ...)` does not fail with `ESRCH`. An unreaped child always exists, a zombie
included. -/
def alive (k : Kernel) (o : Proc) (pid : Nat) : Bool := o.children.contains pid || k.foreign pid

@[simp] theorem emit_children (o : Proc) (e : Effect) : (o.emit e).children = o.children := rfl
@[simp] theorem emit_forks (o : Proc) (e : Effect) : (o.emit e).forks = o.forks := rfl
@[simp] theorem emit_log (o : Proc) (e : Effect) : (o.emit e).log = o.log ++ [e] := rfl
@[simp] theorem emit_ending (o : Proc) (e : Effect) : (o.emit e).ending = o.ending := rfl
@[simp] theorem reap_children (o : Proc) (p : Nat) : (o.reap p).children = o.children.erase p :=
  rfl
@[simp] theorem reap_forks (o : Proc) (p : Nat) : (o.reap p).forks = o.forks := rfl
@[simp] theorem reap_log (o : Proc) (p : Nat) : (o.reap p).log = o.log := rfl
@[simp] theorem reap_ending (o : Proc) (p : Nat) : (o.reap p).ending = o.ending := rfl
@[simp] theorem halt_children (o : Proc) (e : Ending) : (o.halt e).children = o.children := rfl
@[simp] theorem halt_forks (o : Proc) (e : Ending) : (o.halt e).forks = o.forks := rfl
@[simp] theorem halt_log (o : Proc) (e : Ending) : (o.halt e).log = o.log := rfl
@[simp] theorem halt_ending (o : Proc) (e : Ending) : (o.halt e).ending = some e := rfl

/-- Every unreaped child answers the probe. -/
theorem alive_of_mem {k : Kernel} {o : Proc} {p : Nat} (h : p ∈ o.children) : o.alive k p := by
  simp [alive, h]

end Proc

/-- `assign_servant`: fork a child that runs `job` on `devname`. A failed fork makes the caller
`exit(1)`, so no pid comes back. -/
def assignServant (k : Kernel) (o : Proc) (devname : String) (job : Job) : Proc × Option Nat :=
  match k.fork o.forks o.children with
  | some p =>
    ({ o with children := p :: o.children, forks := o.forks + 1,
              log := o.log ++ [.fork devname p job] }, some p)
  | none => ({ o with forks := o.forks + 1, ending := some (.exit 1) }, none)

/-- What one `assign_servant` can do: hand back a fresh pid and record the fork, or end the
process. -/
theorem assignServant_cases (k : Kernel) (o : Proc) (devname : String) (job : Job) :
    (∃ p, 0 < p ∧ p ∉ o.children ∧ assignServant k o devname job =
      ({ o with children := p :: o.children, forks := o.forks + 1,
                log := o.log ++ [.fork devname p job] }, some p)) ∨
    assignServant k o devname job = ({ o with forks := o.forks + 1, ending := some (.exit 1) },
      none) := by
  unfold assignServant
  split
  · next p hp => exact .inl ⟨p, (k.fork_fresh hp).1, (k.fork_fresh hp).2, rfl⟩
  · exact .inr rfl

end Sbd
