import Sbd.Basic

/-!
# What the children compute

`assign_servant` forks a child that runs a function on one device, and turns what the function
returns into the child's exit status: `-1` exits 1, anything else exits 0. The inquisitor and the
messenger only ever see these statuses. This file models the functions their children run: the
setup `servant` performs before its main loop, and the wrapper `messenger` forks.

## The disk layer

`open_device`, `slot_allocate`, `mbox_write` and `slot_msg` belong to the common SBD code, which
is not part of the source; `open` and the `BLKSSZGET` ioctl are system calls.
`Answers` is what each of them returns to the child that calls it. A child is named by its
device and its pid, so two children working on one disk may be answered differently.

## What a child exits with

`childExit` is the child side of `assign_servant`: the function's return becomes the exit status.
A prepare-only servant and the wrapper always return; a full-job servant whose setup succeeded
enters its main loop, which leaves only by rebooting the node or, once orphaned, by an `exit(0)`
no parent reaps.
-/

namespace Sbd

/-- What the system calls and the disk layer answer the child with pid `q` working on a device.
Modelled from the spec: the disk layer (`open_device`, `slot_allocate`, `mbox_write`, `slot_msg`)
is not part of the source. -/
structure Answers where
  /-- `open(diskname, O_SYNC | O_RDWR | O_DIRECT)` in `servant` succeeds. -/
  opens : String → Nat → Bool
  /-- `sector_size` after `ioctl(devfd, BLKSSZGET, &sector_size)`; `0` when none was read. -/
  sectorSize : String → Nat → Nat
  /-- `slot_allocate(devfd, name)`: the slot's index, or a negative value on failure. -/
  slotAllocate : String → Nat → String → Int
  /-- `mbox_write(devfd, mbox, s_mbox)` of the zeroed mailbox into slot `mbox`. -/
  mboxWrite : String → Nat → Int → Int
  /-- `open_device(devname)` in `slot_msg_wrapper` succeeds. -/
  openDevice : String → Nat → Bool
  /-- `slot_msg(devfd, name, msg)`. -/
  slotMsg : String → Nat → String → String → Int

/-- The child side of `assign_servant`: the function's `-1` becomes `exit(1)`, any other return
`exit(0)`; `none` when the function never returns. -/
def childExit (rc : Option Int) : Option Nat := rc.map fun rc => if rc = -1 then 1 else 0

/-- What `servant(diskname, ...)` returns from its setup, in the child `q` working on `d`: the disk
opened for synchronous direct I/O, a nonzero sector size, this node's slot allocated, and the
zeroed mailbox written into it; `-1` at the first of these that fails. -/
def servantSetup (ans : Answers) (localUname d : String) (q : Nat) : Int :=
  if ans.opens d q = false then -1
  else if ans.sectorSize d q = 0 then -1
  else
    let mbox := ans.slotAllocate d q localUname
    if mbox < 0 then -1
    else if ans.mboxWrite d q mbox < 0 then -1
    else 0

/-- `servant(diskname, mode)`: the setup's `-1`, `0` after the setup in `SERVANT_PREPARE_ONLY`
mode, or `none` in `SERVANT_DO_FULLJOB` mode, where a successful setup enters the main loop
(`Sbd.servantStep`) and never returns. -/
def servant (ans : Answers) (localUname : String) (mode : Mode) (d : String) (q : Nat) :
    Option Int :=
  if servantSetup ans localUname d q = -1 then some (-1)
  else match mode with
    | .prepareOnly => some 0
    | .fullJob => none

/-- `slot_msg_wrapper(devname, {name, msg})`. -/
def slotMsgWrapper (ans : Answers) (name msg d : String) (q : Nat) : Int :=
  if ans.openDevice d q then ans.slotMsg d q name msg else -1

/-- A child exits 0 exactly when its function returned something other than `-1`: for a
message child, any value of `slot_msg` but `-1`, a negative one included, counts as a delivery. -/
@[simp] theorem childExit_some_eq_zero (rc : Int) : childExit (some rc) = some 0 ↔ rc ≠ -1 := by
  by_cases h : rc = -1 <;> simp [childExit, h]

/-- The setup either fails or succeeds; nothing else is returned. -/
theorem servantSetup_cases (ans : Answers) (localUname d : String) (q : Nat) :
    servantSetup ans localUname d q = -1 ∨ servantSetup ans localUname d q = 0 := by
  unfold servantSetup
  dsimp only
  split_ifs <;> simp

/-- A prepare-only servant exits 0 exactly when its setup went through. -/
theorem childExit_servant_prepareOnly (ans : Answers) (localUname d : String) (q : Nat) :
    childExit (servant ans localUname .prepareOnly d q) = some 0 ↔
      servantSetup ans localUname d q = 0 := by
  rcases servantSetup_cases ans localUname d q with h | h <;> simp [servant, h]

end Sbd
