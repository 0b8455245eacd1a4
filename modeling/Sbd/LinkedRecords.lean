import Sbd.Servants
import Sbd.ServantList

/-!
# The records are the linked list

Every module about the inquisitor keeps the servant records as a Lean list (`Sbd.Servants`);
the code keeps them in the heap list `recruit_servant` builds (`Sbd.ServantList`). This module
models on the heap the walks that find one record and rewrite it, and proves that each computes
what its list counterpart computes on the records the heap list holds.

## Lookups

`expectReport` is the loop that opens `inquisitor` and sizes its report array; `Rep.expectReport`
says it counts the list. `lookup_servant_by_pid` and `lookup_servant_by_dev` run the same loop,
`while (s != NULL) { if (…) return s; else s = s->next; } return s;`, and differ only in the
test: `lookupCell` is that loop with the test as a parameter.

## Writes through a lookup

`cleanup_servant_by_pid` writes `s->pid = 0` on the item `lookup_servant_by_pid` returns, and
`restart_servant_by_pid` writes the new child's pid the same way: `ServantList.setPid` is that
write, `setPidCells` what it does to the cells.

## Refinement

`Holds l ss`: walking `l` gives the records `ss`, `expect_report` counts them, and both lookups
find on the heap the record the list model finds in `ss`. `linked_records_refine_list`: from every heap list, after any
sequence of writes, the heap list holds the records the list model computes.
-/

namespace Sbd

/-- The records the cells hold, in list order. -/
def records (cs : List (Nat × Item)) : List Servant := cs.map (·.2.toServant)

/-- The record a pointer designates; none for `NULL`. -/
def Heap.record (hp : Heap) (ptr : Option Nat) : Option Servant :=
  (ptr.bind hp.cell).map Item.toServant

/-- The loop of `lookup_servant_by_pid` and `lookup_servant_by_dev` with at most `fuel`
passes: the first item from `ptr` on that passes `found`, `NULL` past the last, or `none` if the
loop has not stopped (or has read a cell nothing is allocated at). -/
def lookupCell (found : Item → Bool) (hp : Heap) : Nat → Option Nat → Option (Option Nat)
  | _, none => some none
  | 0, some _ => none
  | fuel + 1, some s =>
    match hp.cell s with
    | none => none
    | some it => if found it then some (some s) else lookupCell found hp fuel it.next

/-- The loop that opens `inquisitor`, `while (s != NULL) { s = s->next; expect_report++; }`,
with at most `fuel` passes: `expect_report` at `NULL`, or `none` if the loop has not stopped. -/
def expectReport (hp : Heap) : Nat → Option Nat → Nat → Option Nat
  | _, none, n => some n
  | 0, some _, _ => none
  | fuel + 1, some s, n =>
    match hp.cell s with
    | none => none
    | some it => expectReport hp fuel it.next (n + 1)

/-- `lookup_servant_by_pid` on the heap list. -/
def ServantList.lookupServantByPid (l : ServantList) (pid : Nat) : Option (Option Nat) :=
  lookupCell (fun it => decide (it.pid = pid)) l.heap l.heap.bound l.leader

/-- `lookup_servant_by_dev` on the heap list. -/
def ServantList.lookupServantByDev (l : ServantList) (devname : String) :
    Option (Option Nat) :=
  lookupCell (fun it => decide (strncasecmp it.devname.toList devname.toList
    it.devname.length ≠ 0)) l.heap l.heap.bound l.leader

/-- `s->pid = q` on the item `lookup_servant_by_pid(pid)` returns; no item, no write. -/
def ServantList.setPid (l : ServantList) (pid q : Nat) : Option ServantList := do
  match ← l.lookupServantByPid pid with
  | none => pure l
  | some a => do
    let it ← l.heap.cell a
    pure { l with heap := l.heap.write a { it with pid := q } }

/-- `cleanup_servant_by_pid` on the heap list. -/
def ServantList.cleanupServantByPid (l : ServantList) (pid : Nat) : Option ServantList :=
  l.setPid pid 0

/-- What `ServantList.setPid` does to the cells: the first cell holding `pid` gets `q`. -/
def setPidCells : List (Nat × Item) → Nat → Nat → List (Nat × Item)
  | [], _, _ => []
  | c :: cs, pid, q =>
    if c.2.pid = pid then (c.1, { c.2 with pid := q }) :: cs else c :: setPidCells cs pid q

/-! ## The list model's lookups as searches -/

theorem lookupServantByPid_eq_find (ss : List Servant) (pid : Nat) :
    lookupServantByPid ss pid = ss.find? fun s => decide (s.pid = pid) := by
  induction ss with
  | nil => rfl
  | cons s ss ih => by_cases h : s.pid = pid <;> simp [lookupServantByPid, h, ih]

theorem lookupServantByDev_eq_find_strncasecmp (ss : List Servant) (devname : String) :
    lookupServantByDev ss devname = ss.find? fun s =>
      decide (strncasecmp s.devname.toList devname.toList s.devname.length ≠ 0) := by
  induction ss with
  | nil => rfl
  | cons s ss ih =>
    rw [lookupServantByDev, List.find?_cons, ih]
    by_cases h : strncasecmp s.devname.toList devname.toList s.devname.length = 0 <;> simp_all

theorem records_setPidCells (cs : List (Nat × Item)) (pid q : Nat) :
    records (setPidCells cs pid q) = setPid (records cs) pid q := by
  induction cs with
  | nil => rfl
  | cons c cs ih =>
    by_cases h : c.2.pid = pid <;> simp_all [setPidCells, records, setPid, Item.toServant]

theorem map_fst_setPidCells (cs : List (Nat × Item)) (pid q : Nat) :
    (setPidCells cs pid q).map Prod.fst = cs.map Prod.fst := by
  induction cs with
  | nil => rfl
  | cons c cs ih => by_cases h : c.2.pid = pid <;> simp [setPidCells, h, ih]

theorem setPidCells_of_find_none {cs : List (Nat × Item)} {pid : Nat} (q : Nat)
    (h : cs.find? (fun c => decide (c.2.pid = pid)) = none) : setPidCells cs pid q = cs := by
  induction cs with
  | nil => rfl
  | cons c cs ih =>
    have hc : c.2.pid ≠ pid := fun e => by simp [e] at h
    rw [List.find?_cons_of_neg _ (by simpa using hc)] at h
    simp [setPidCells, hc, ih h]

/-! ## Walks over a heap list -/

section Rep

variable {hp : Heap} {ptr : Option Nat} {cs : List (Nat × Item)}

/-- **The lookup loop stops at the first cell passing its test**, `NULL` if none does, given
one pass per cell. -/
theorem Rep.lookupCell (hr : Rep hp ptr cs) (found : Item → Bool) {fuel : Nat}
    (hf : cs.length ≤ fuel) :
    Sbd.lookupCell found hp fuel ptr = some ((cs.find? (found ·.2)).map Prod.fst) := by
  induction hr generalizing fuel with
  | nil => cases fuel <;> rfl
  | @cons a it cs cell _ _ ih =>
    cases fuel with
    | zero => simp at hf
    | succ fuel =>
      by_cases h : found it
      · simp [Sbd.lookupCell, cell, h]
      · simp [Sbd.lookupCell, cell, h, ih (by simpa using hf)]

/-- **`expect_report` counts the list**, given one pass per cell: the report array and the
quorum's `N` are the list's length. -/
theorem Rep.expectReport (hr : Rep hp ptr cs) (n : Nat) {fuel : Nat} (hf : cs.length ≤ fuel) :
    Sbd.expectReport hp fuel ptr n = some (n + cs.length) := by
  induction hr generalizing n fuel with
  | nil => cases fuel <;> rfl
  | cons cell _ _ ih =>
    cases fuel with
    | zero => simp at hf
    | succ fuel =>
      simp only [Sbd.expectReport, cell]
      rw [ih (n + 1) (by simpa using hf), List.length_cons, Nat.add_right_comm, Nat.add_assoc]

/-- The record the lookup loop finds is the one the same search finds among the records. -/
theorem Rep.record_lookupCell (hr : Rep hp ptr cs) (test : Servant → Bool) {fuel : Nat}
    (hf : cs.length ≤ fuel) :
    (Sbd.lookupCell (test ∘ Item.toServant) hp fuel ptr).map hp.record =
      some ((records cs).find? test) := by
  rw [hr.lookupCell _ hf, records, List.find?_map]
  simp only [Function.comp_def]
  cases hc : cs.find? (fun c => test c.2.toServant) with
  | none => rfl
  | some c =>
    have hcell := hr.cell_of_mem (List.mem_of_find?_eq_some hc)
    simp [Function.comp_def, hc, Heap.record, hcell]

/-- Rewriting the pid of the first cell holding `pid` keeps the list, with that cell's pid
changed. -/
theorem Rep.setPid (hr : Rep hp ptr cs) {pid a : Nat} {it : Item}
    (h : cs.find? (fun c => decide (c.2.pid = pid)) = some (a, it)) (q : Nat) :
    Rep (hp.write a { it with pid := q }) ptr (setPidCells cs pid q) := by
  induction hr with
  | nil => cases h
  | @cons b itb cs cell fresh tail ih =>
    by_cases hb : itb.pid = pid
    · obtain ⟨rfl, rfl⟩ : b = a ∧ itb = it := by simpa [hb] using h
      simp only [setPidCells, hb, if_true]
      exact .cons (by simp) fresh (tail.write fresh _)
    · have h' : cs.find? (fun c => decide (c.2.pid = pid)) = some (a, it) := by simpa [hb] using h
      have hab : b ≠ a := fun e => fresh (e ▸ List.mem_map_of_mem Prod.fst
        (List.mem_of_find?_eq_some h'))
      simp only [setPidCells, hb, if_false]
      exact .cons (by simp [hab, cell]) (by rwa [map_fst_setPidCells]) (ih h')

end Rep

/-- **`s->pid = q` through `lookup_servant_by_pid` is `setPid` on the cells.** -/
theorem ServantList.setPid_spec {l : ServantList} {cs : List (Nat × Item)}
    (hr : Rep l.heap l.leader cs) (pid q : Nat) :
    ∃ l', l.setPid pid q = some l' ∧ Rep l'.heap l'.leader (setPidCells cs pid q) := by
  have hl := hr.lookupCell (fun it => decide (it.pid = pid)) hr.length_le_bound
  cases hf : cs.find? (fun c => decide (c.2.pid = pid)) with
  | none =>
    refine ⟨l, ?_, by rwa [setPidCells_of_find_none q hf]⟩
    simp [ServantList.setPid, ServantList.lookupServantByPid, hl, hf]
  | some c =>
    obtain ⟨a, it⟩ := c
    have hcell := hr.cell_of_mem (List.mem_of_find?_eq_some hf)
    refine ⟨{ l with heap := l.heap.write a { it with pid := q } }, ?_, hr.setPid hf q⟩
    simp [ServantList.setPid, ServantList.lookupServantByPid, hl, hf, hcell]

/-! ## Refinement -/

/-- The heap list `l` holds the records `ss`: walking it gives them, `expect_report` counts
them, and both lookups find on the heap the record the list model finds. -/
structure Holds (l : ServantList) (ss : List Servant) : Prop where
  /-- Walking `next` from `servants_leader` passes exactly the records `ss`, then `NULL`. -/
  walk : (walk l.heap ss.length l.leader).map (·.map Item.toServant) = some ss
  /-- `expect_report`, the size of the report array and the quorum's `N`, counts them. -/
  count : expectReport l.heap l.heap.bound l.leader 0 = some ss.length
  /-- `lookup_servant_by_pid` finds the record `lookupServantByPid` finds. -/
  lookup_pid : ∀ pid, (l.lookupServantByPid pid).map l.heap.record =
    some (lookupServantByPid ss pid)
  /-- `lookup_servant_by_dev` finds the record `lookupServantByDev` finds. -/
  lookup_dev : ∀ devname, (l.lookupServantByDev devname).map l.heap.record =
    some (lookupServantByDev ss devname)

theorem holds_of_rep {l : ServantList} {cs : List (Nat × Item)} (hr : Rep l.heap l.leader cs) :
    Holds l (records cs) where
  walk := by simp [records, hr.walk, Function.comp_def]
  count := by simp [records, hr.expectReport 0 hr.length_le_bound]
  lookup_pid pid := by
    rw [lookupServantByPid_eq_find]
    exact hr.record_lookupCell (fun s => decide (s.pid = pid)) hr.length_le_bound
  lookup_dev devname := by
    rw [lookupServantByDev_eq_find_strncasecmp]
    exact hr.record_lookupCell
      (fun s => decide (strncasecmp s.devname.toList devname.toList s.devname.length ≠ 0))
      hr.length_le_bound

/-- Writes through `lookup_servant_by_pid` keep a heap list, with its cells rewritten as
`setPidCells` rewrites them. -/
theorem rep_setPid_run {l : ServantList} {cs : List (Nat × Item)} (hr : Rep l.heap l.leader cs)
    (writes : List (Nat × Nat)) :
    ∃ l' cs', writes.foldlM (fun l w => l.setPid w.1 w.2) l = some l' ∧
      Rep l'.heap l'.leader cs' ∧
      records cs' = writes.foldl (fun ss w => setPid ss w.1 w.2) (records cs) := by
  induction writes generalizing l cs with
  | nil => exact ⟨l, cs, rfl, hr, rfl⟩
  | cons w writes ih =>
    obtain ⟨l₁, hl₁, hr₁⟩ := ServantList.setPid_spec hr w.1 w.2
    obtain ⟨l', cs', hl', hr', hcs'⟩ := ih hr₁
    exact ⟨l', cs', by simp [hl₁, hl'], hr', by simpa [records_setPidCells] using hcs'⟩

/-- **The record list is the linked list.** From every heap list, after any sequence of writes
`s->pid = q` through `lookup_servant_by_pid` (`cleanup_servant_by_pid` writes `0`,
`restart_servant_by_pid` the new child's pid), the heap list holds the records the list model
computes by `setPid` from the records it held: walking it passes exactly them, `expect_report`
counts them, and both lookups find on the heap the record the list model finds. -/
theorem linked_records_refine_list {l : ServantList} {cs : List (Nat × Item)}
    (hr : Rep l.heap l.leader cs) (writes : List (Nat × Nat)) :
    ∃ l', writes.foldlM (fun l w => l.setPid w.1 w.2) l = some l' ∧
      Holds l' (writes.foldl (fun ss w => setPid ss w.1 w.2) (records cs)) := by
  obtain ⟨l', cs', hl', hr', hcs'⟩ := rep_setPid_run hr writes
  exact ⟨l', hl', hcs' ▸ holds_of_rep hr'⟩

/-- Two devices served by pids `4` and `5`, then `cleanup_servant_by_pid(5)`: `/dev/b`
is found on the heap and its pid cleared. -/
theorem linked_records_after_cleanup :
    let l : ServantList :=
      ⟨(Heap.empty.write 0 ⟨"/dev/a", 4, some 1⟩).write 1 ⟨"/dev/b", 5, none⟩, some 0⟩
    let cs := [(0, ⟨"/dev/a", 4, some 1⟩), (1, ⟨"/dev/b", 5, none⟩)]
    Rep l.heap l.leader cs ∧ ∃ l', [(5, 0)].foldlM (fun l w => l.setPid w.1 w.2) l = some l' ∧
      Holds l' ([(5, 0)].foldl (fun ss w => setPid ss w.1 w.2) (records cs)) :=
  have hr : Rep ((Heap.empty.write 0 ⟨"/dev/a", 4, some 1⟩).write 1 ⟨"/dev/b", 5, none⟩)
      (some 0) [(0, ⟨"/dev/a", 4, some 1⟩), (1, ⟨"/dev/b", 5, none⟩)] :=
    .cons rfl (by decide) (.cons rfl (by decide) .nil)
  ⟨hr, linked_records_refine_list hr [(5, 0)]⟩

end Sbd
