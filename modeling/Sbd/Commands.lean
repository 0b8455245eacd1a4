import Sbd.Basic

/-!
# The one-shot commands

Besides `watch`, which runs the inquisitor, and `message`, which runs the messenger, `main` has
commands that walk the configured devices in the main process itself: `create`
(`init_devices`), `allocate` (`allocate_slots`), `list` (`list_slots`) and `dump`
(`dump_headers`). Each follows the servant list from `servants_leader`, opens every device with
`open_device`, runs one disk-layer operation on it, and returns `-1` at the first device that
does not open or whose operation returns `-1`. `main` then turns a negative result into the
usage text and the exit status 1.

## One walk, four commands

The first three differ only in the operation: each is `walkDevices` applied to its own.
`dump_headers` keeps its own body, since it returns the last operation's value where the others
return `0` (`dumpHeadersFrom_eq`).

## What a walk leaves on the disks

`walkDevices` returns, with the value, the devices the operation ran on. The operation ran on
exactly the devices before the first failure, and on the failing one if it opened
(`walkDevices_snd`): an `sbd create` that fails halfway has written fresh headers to the first
devices and left the others as they were.
-/

namespace Sbd

/-- What the disk layer answers the walks `main` runs itself.
Modelled from the spec: `open_device`, `init_device`, `slot_allocate`, `slot_list` and
`header_dump` are not part of the source. -/
structure DiskOps where
  /-- `open_device(devname)` does not return `-1`. -/
  openDevice : String → Bool
  /-- `init_device(devfd)`, which writes a fresh header. -/
  initDevice : String → Int
  /-- `slot_allocate(devfd, name)`. -/
  slotAllocate : String → String → Int
  /-- `slot_list(devfd)`. -/
  slotList : String → Int
  /-- `header_dump(devfd)`. -/
  headerDump : String → Int

/-- The `while (s != NULL)` walk of `init_devices`, `allocate_slots` and `list_slots` over the
devices in list order: `-1` at the first device that does not open or on which `op` returns
`-1`, else `0`; with the devices `op` ran on. -/
def walkDevices (opens : String → Bool) (op : String → Int) : List String → Int × List String
  | [] => (0, [])
  | d :: ds =>
    if opens d = false then (-1, [])
    else if op d = -1 then (-1, [d])
    else
      let r := walkDevices opens op ds
      (r.1, d :: r.2)

/-- `init_devices`, behind `sbd create`. -/
def initDevices (ops : DiskOps) (devs : List String) : Int × List String :=
  walkDevices ops.openDevice ops.initDevice devs

/-- `allocate_slots(name)`, behind `sbd allocate`. -/
def allocateSlots (ops : DiskOps) (name : String) (devs : List String) : Int × List String :=
  walkDevices ops.openDevice (ops.slotAllocate · name) devs

/-- `list_slots`, behind `sbd list`. -/
def listSlots (ops : DiskOps) (devs : List String) : Int × List String :=
  walkDevices ops.openDevice ops.slotList devs

/-- The loop of `dump_headers`, `rc` the value the last `header_dump` returned. -/
def dumpHeadersFrom (ops : DiskOps) (rc : Int) : List String → Int × List String
  | [] => (rc, [])
  | d :: ds =>
    if ops.openDevice d = false then (-1, [])
    else
      let rc := ops.headerDump d
      if rc = -1 then (-1, [d])
      else
        let r := dumpHeadersFrom ops rc ds
        (r.1, d :: r.2)

/-- `dump_headers`, behind `sbd dump`: `rc` starts at `0` and is returned at the end. -/
def dumpHeaders (ops : DiskOps) (devs : List String) : Int × List String :=
  dumpHeadersFrom ops 0 devs

/-- The end of `main`: a negative `exit_status` prints the usage and returns 1, any other value
returns 0. -/
def mainReturn (exitStatus : Int) : Nat := if exitStatus < 0 then 1 else 0

/-! ## The walk -/

section Walk

variable (opens : String → Bool) (op : String → Int)

/-- A device the walk passes: it opens and its operation does not return `-1`. -/
def Passes (d : String) : Bool := opens d && op d != -1

theorem walkDevices_fst : ∀ ds : List String,
    (walkDevices opens op ds).1 = if ds.all (Passes opens op) then 0 else -1
  | [] => rfl
  | d :: ds => by
    by_cases ho : opens d = false
    · simp [walkDevices, Passes, ho]
    · by_cases hf : op d = -1
      · simp [walkDevices, Passes, ho, hf]
      · simp [walkDevices, Passes, ho, hf, walkDevices_fst ds]

/-- **Where a walk stops.** The operation runs on the devices that pass up to the first that
does not, and on that one if it opens. -/
theorem walkDevices_snd : ∀ ds : List String,
    (walkDevices opens op ds).2 =
      ds.takeWhile (Passes opens op) ++ ((ds.dropWhile (Passes opens op)).take 1).filter opens
  | [] => rfl
  | d :: ds => by
    by_cases ho : opens d = false
    · simp [walkDevices, Passes, ho]
    · by_cases hf : op d = -1
      · simp [walkDevices, Passes, ho, hf]
      · simp [walkDevices, Passes, ho, hf, walkDevices_snd ds]

end Walk

/-- **Create, allocate and list stop at the first failure.** `sbd create`, `sbd allocate` and
`sbd list` exit with status 0 exactly when every configured device opened and the operation
returned something other than `-1` on each; the operation ran, in list order, on the devices
before the first that failed, and on that one if it opened, and on no later device. -/
theorem walk_commands_stop_at_first_failure (opens : String → Bool) (op : String → Int)
    (devs : List String) :
    (mainReturn (walkDevices opens op devs).1 = 0 ↔ ∀ d ∈ devs, opens d = true ∧ op d ≠ -1) ∧
      (walkDevices opens op devs).2 = devs.takeWhile (Passes opens op) ++
        ((devs.dropWhile (Passes opens op)).take 1).filter opens := by
  refine ⟨?_, walkDevices_snd opens op devs⟩
  rw [walkDevices_fst]
  split
  · next ha => simpa [mainReturn, Passes] using ha
  · next ha => simpa [mainReturn, Passes] using ha

/-! ## `dump_headers` -/

/-- `dump_headers` walks as the others do, but ends with the value of the last `header_dump`
(`rc`, the value before the walk, when there is no device) instead of `0`. -/
theorem dumpHeadersFrom_eq (ops : DiskOps) : ∀ (rc : Int) (ds : List String),
    dumpHeadersFrom ops rc ds =
      (if (walkDevices ops.openDevice ops.headerDump ds).1 = -1 then -1
        else (ds.getLast?.map ops.headerDump).getD rc,
        (walkDevices ops.openDevice ops.headerDump ds).2)
  | rc, [] => rfl
  | rc, d :: ds => by
    by_cases ho : ops.openDevice d = false
    · simp [dumpHeadersFrom, walkDevices, ho]
    · by_cases hf : ops.headerDump d = -1
      · simp [dumpHeadersFrom, walkDevices, ho, hf]
      · simp only [dumpHeadersFrom, walkDevices, ho, hf, dumpHeadersFrom_eq ops _ ds, if_false,
          Bool.false_eq_true]
        cases ds <;> simp [List.getLast?_eq_getLast]

/-- **`sbd dump` answers for the last header.** `sbd dump` exits with status 0 exactly when
every device opened, no `header_dump` returned `-1`, and the last device's `header_dump` returned
a nonnegative value: what the earlier ones returned, `-1` apart, is ignored. -/
theorem dump_exit_follows_last_header (ops : DiskOps) (devs : List String) :
    mainReturn (dumpHeaders ops devs).1 = 0 ↔
      (∀ d ∈ devs, ops.openDevice d = true ∧ ops.headerDump d ≠ -1) ∧
        ∀ d ∈ devs.getLast?, 0 ≤ ops.headerDump d := by
  rw [dumpHeaders, dumpHeadersFrom_eq, walkDevices_fst]
  have hall : devs.all (Passes ops.openDevice ops.headerDump) = true ↔
      ∀ d ∈ devs, ops.openDevice d = true ∧ ops.headerDump d ≠ -1 := by
    simp [Passes]
  by_cases ha : devs.all (Passes ops.openDevice ops.headerDump) = true
  · have hl : mainReturn ((devs.getLast?.map ops.headerDump).getD 0) = 0 ↔
        ∀ d ∈ devs.getLast?, 0 ≤ ops.headerDump d := by
      cases devs.getLast? <;> simp [mainReturn]
    rw [if_pos ha, if_neg (by decide), hl, and_iff_right (hall.mp ha)]
  · rw [if_neg ha, if_pos rfl]
    exact ⟨fun h => by simp [mainReturn] at h, fun h => absurd (hall.mpr h.1) ha⟩

end Sbd
