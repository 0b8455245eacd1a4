import Sbd.Basic

/-!
# The linked servant list

`main` calls `recruit_servant(optarg, 0)` once per `-d` option, starting from
`servants_leader = NULL`. Every other module keeps the servant records as a Lean list; this
one models the list as the code builds it, in a heap of `struct servants_list_item` cells
joined by `next` pointers, and proves that the Lean list is what walking the heap list gives.

`recruit_servant` finds the tail with a trailing pointer: `s` and `p` both start at the
leader, and each pass moves `s` on, copying it into `p` first unless `s == p`. On the first
pass `s == p`, so `p` is not moved; from then on `p` is the cell `s` has just left. Either way
`p` ends as the cell `s` last stood on (`tailSearch_cell`), and the new item is hung from it.

## Heap and allocation

A pointer is `Option Nat`, `none` for `NULL`. `malloc` is an oracle: any block no item
occupies, or `NULL`. On `NULL` the `memset` that follows writes through it and the process
dies, so the call does not return.

## Result

`recruitAll_rep`: unless some call's `malloc` answers `NULL`, the calls leave an acyclic list
whose cells carry the calls' names and pids in call order. `walk` reads it from the leader.
-/

namespace Sbd

/-- `struct servants_list_item`, as far as `sbd-md.c` uses it. Modelled from the spec: the
struct is declared in `sbd.h`, which is not part of the source; these are the three fields the
source reads and writes. -/
structure Item where
  /-- The configured device (`strdup` of the option's argument). -/
  devname : String
  /-- The serving child's pid; `0` when none serves the device. -/
  pid : Nat
  /-- The next item; `none` is `NULL`. -/
  next : Option Nat
  deriving DecidableEq, Repr

/-- The record an item holds. -/
def Item.toServant (it : Item) : Servant := ⟨it.devname, it.pid⟩

/-- The items the inquisitor has allocated, by address; every allocated address is below
`bound`. -/
structure Heap where
  /-- The item at each address, `none` where nothing is allocated. -/
  cell : Nat → Option Item
  /-- An upper bound on the allocated addresses. -/
  bound : Nat
  /-- Nothing is allocated at or above `bound`. -/
  cell_above : ∀ a, bound ≤ a → cell a = none

/-- The heap before the first `recruit_servant`. -/
def Heap.empty : Heap := ⟨fun _ => none, 0, fun _ _ => rfl⟩

/-- The item at `a` becomes `it`. -/
def Heap.write (hp : Heap) (a : Nat) (it : Item) : Heap where
  cell b := if b = a then some it else hp.cell b
  bound := max hp.bound (a + 1)
  cell_above b hb := by
    obtain ⟨hb, hab⟩ := max_le_iff.mp hb
    simp only [if_neg (show b ≠ a by omega), hp.cell_above b hb]

@[simp] theorem Heap.write_cell (hp : Heap) (a b : Nat) (it : Item) :
    (hp.write a it).cell b = if b = a then some it else hp.cell b := rfl

theorem Heap.lt_bound {hp : Heap} {a : Nat} {it : Item} (h : hp.cell a = some it) :
    a < hp.bound :=
  Nat.lt_of_not_le fun hb => by simp [hp.cell_above a hb] at h

theorem Heap.ne_of_cell {hp : Heap} {a n : Nat} {it : Item} (ha : hp.cell a = some it)
    (hn : hp.cell n = none) : a ≠ n := by
  rintro rfl; simp [ha] at hn

/-- `malloc(sizeof(*newbie))`: the address of a block no item occupies, or `NULL`. -/
structure Malloc where
  /-- The block `malloc` answers for the current heap. -/
  alloc : Heap → Option Nat
  /-- A block `malloc` answers holds no item. -/
  alloc_fresh : ∀ {hp a}, alloc hp = some a → hp.cell a = none

/-- `servants_leader` and the heap its list lives in. -/
structure ServantList where
  /-- The allocated items. -/
  heap : Heap
  /-- `servants_leader`. -/
  leader : Option Nat

/-- `servants_leader = NULL`, nothing allocated. -/
def ServantList.empty : ServantList := ⟨Heap.empty, none⟩

/-! ## `recruit_servant` -/

/-- The `while (s != NULL)` loop of `recruit_servant` with at most `fuel` passes: the final
`p`, or `none` if the loop has not stopped (or has read a cell nothing is allocated at). -/
def tailSearch (hp : Heap) : Nat → Option Nat → Option Nat → Option (Option Nat)
  | _, none, p => some p
  | 0, some _, _ => none
  | fuel + 1, some s, p =>
    match hp.cell s with
    | none => none
    | some it => if some s = p then tailSearch hp fuel it.next p
      else tailSearch hp fuel it.next (some s)

/-- `recruit_servant(devname, pid)`. The tail search is given one pass per allocated address,
which is enough on every acyclic list (`Rep.tailSearch`); `none` is a call that does not
return: the search did not stop, or `malloc` answered `NULL`. -/
def recruitServant (m : Malloc) (l : ServantList) (devname : String) (pid : Nat) :
    Option ServantList := do
  let p ← tailSearch l.heap l.heap.bound l.leader l.leader
  let a ← m.alloc l.heap
  let heap := l.heap.write a ⟨devname, pid, none⟩
  match p with
  | none => pure ⟨heap, some a⟩
  | some q => do
    let it ← heap.cell q
    pure ⟨heap.write q { it with next := some a }, l.leader⟩

/-- The calls `recruit_servant(d₁, p₁)`, …, `recruit_servant(dₖ, pₖ)` from an empty list. -/
def recruitAll (m : Malloc) (calls : List (String × Nat)) : Option ServantList :=
  calls.foldlM (fun l c => recruitServant m l c.1 c.2) ServantList.empty

theorem recruitAll_concat (m : Malloc) (calls : List (String × Nat)) (c : String × Nat) :
    recruitAll m (calls ++ [c]) = (recruitAll m calls).bind (recruitServant m · c.1 c.2) := by
  simp [recruitAll, List.foldlM_append]

/-- Following `next` from `ptr` for at most `fuel` items: the items passed before `NULL`, or
`none` if `NULL` is not reached (or a pointer leads where nothing is allocated). -/
def walk (hp : Heap) : Nat → Option Nat → Option (List Item)
  | _, none => some []
  | 0, some _ => none
  | fuel + 1, some a =>
    match hp.cell a with
    | none => none
    | some it => (walk hp fuel it.next).map (it :: ·)

/-! ## Lists in the heap -/

/-- From `ptr`, the cells `cs` (address and item) in order, then `NULL`: an acyclic list,
every cell at its own address. -/
inductive Rep (hp : Heap) : Option Nat → List (Nat × Item) → Prop
  | nil : Rep hp none []
  | cons {a : Nat} {it : Item} {cs : List (Nat × Item)} (cell : hp.cell a = some it)
      (fresh : a ∉ cs.map Prod.fst) (tail : Rep hp it.next cs) : Rep hp (some a) ((a, it) :: cs)

/-- The pointer the tail search leaves in `p`: the last cell's address, or `p` itself on the
empty list. -/
def lastAddr : List (Nat × Item) → Option Nat → Option Nat
  | [], p => p
  | c :: cs, _ => lastAddr cs (some c.1)

theorem lastAddr_concat (cs : List (Nat × Item)) (c : Nat × Item) (p : Option Nat) :
    lastAddr (cs ++ [c]) p = some c.1 := by
  induction cs generalizing p with
  | nil => rfl
  | cons d cs ih => exact ih _

section Rep

variable {hp : Heap} {ptr : Option Nat} {cs : List (Nat × Item)}

/-- One pass of the loop: whichever branch is taken, `p` is the cell `s` leaves. -/
theorem tailSearch_cell {a : Nat} {it : Item} (h : hp.cell a = some it)
    (fuel : Nat) (p : Option Nat) :
    tailSearch hp (fuel + 1) (some a) p = tailSearch hp fuel it.next (some a) := by
  by_cases hp' : some a = p
  · subst hp'; simp [tailSearch, h]
  · simp [tailSearch, h, hp']

/-- **The trailing-pointer loop finds the tail** of every list, from any `p`, given one pass
per cell. -/
theorem Rep.tailSearch (hr : Rep hp ptr cs) (p : Option Nat) {fuel : Nat}
    (hf : cs.length ≤ fuel) : Sbd.tailSearch hp fuel ptr p = some (lastAddr cs p) := by
  induction hr generalizing p fuel with
  | nil => cases fuel <;> rfl
  | cons cell _ _ ih =>
    cases fuel with
    | zero => simp at hf
    | succ fuel => rw [tailSearch_cell cell]; exact ih _ (by simpa using hf)

theorem Rep.walk (hr : Rep hp ptr cs) : Sbd.walk hp cs.length ptr = some (cs.map Prod.snd) := by
  induction hr with
  | nil => rfl
  | cons cell _ _ ih => simp [Sbd.walk, cell, ih]

theorem Rep.nodup (hr : Rep hp ptr cs) : (cs.map Prod.fst).Nodup := by
  induction hr with
  | nil => exact List.nodup_nil
  | cons _ fresh _ ih => exact List.nodup_cons.mpr ⟨fresh, ih⟩

theorem Rep.eq_none_of_nil (hr : Rep hp ptr []) : ptr = none := by
  cases hr; rfl

theorem Rep.cell_of_mem (hr : Rep hp ptr cs) {c : Nat × Item} (hc : c ∈ cs) :
    hp.cell c.1 = some c.2 := by
  induction hr with
  | nil => cases hc
  | cons cell _ _ ih =>
    rcases List.mem_cons.mp hc with rfl | hc
    · exact cell
    · exact ih hc

/-- A list has at most one cell per allocated address. -/
theorem Rep.length_le_bound (hr : Rep hp ptr cs) : cs.length ≤ hp.bound := by
  have hsub : cs.map Prod.fst ⊆ List.range hp.bound := fun a ha => by
    obtain ⟨c, hc, rfl⟩ := List.mem_map.mp ha
    exact List.mem_range.mpr (Heap.lt_bound (hr.cell_of_mem hc))
  simpa using (List.subperm_of_subset hr.nodup hsub).length_le

/-- A write elsewhere leaves a list alone. -/
theorem Rep.write (hr : Rep hp ptr cs) {a : Nat} (ha : a ∉ cs.map Prod.fst) (it : Item) :
    Rep (hp.write a it) ptr cs := by
  induction hr with
  | nil => exact .nil
  | cons cell fresh _ ih =>
    simp only [List.map_cons, List.mem_cons, not_or] at ha
    exact .cons (by simp [Ne.symm ha.1, cell]) fresh (ih ha.2)

/-- A new item `n` alone, ending in `NULL`. -/
theorem Rep.single {n : Nat} {new : Item} (hnew : new.next = none) :
    Rep (hp.write n new) (some n) [(n, new)] :=
  .cons (by simp) (by simp) (hnew ▸ .nil)

/-- Hanging a new item `n` from the last cell `q`. -/
theorem Rep.append {q : Nat} {itq : Item} (hr : Rep hp ptr (cs ++ [(q, itq)])) {n : Nat}
    (hn : hp.cell n = none) {new : Item} (hnew : new.next = none) :
    Rep ((hp.write n new).write q { itq with next := some n }) ptr
      (cs ++ [(q, { itq with next := some n }), (n, new)]) := by
  induction cs generalizing ptr with
  | nil =>
    obtain _ | ⟨cell, -, -⟩ := hr
    have hqn : q ∉ [(n, new)].map Prod.fst := by simpa using Heap.ne_of_cell cell hn
    exact .cons (by simp) hqn ((Rep.single hnew).write hqn _)
  | cons c cs ih =>
    obtain ⟨a, it⟩ := c
    obtain _ | ⟨cell, fresh, tail⟩ := hr
    have han := Heap.ne_of_cell cell hn
    rw [List.append_eq] at fresh tail
    simp only [List.map_append, List.map_cons, List.map_nil, List.mem_append,
      List.mem_singleton, not_or] at fresh
    exact .cons (by simp [fresh.2, han, cell]) (by simp [fresh.1, fresh.2, han]) (ih tail)

end Rep

/-- The name and pid a cell holds. -/
def cellCall (c : Nat × Item) : String × Nat := (c.2.devname, c.2.pid)

/-- **`recruit_servant` appends.** On a list, the call either does not return because
`malloc` answered `NULL`, or leaves a list with one more cell, holding its arguments, at the
end. -/
theorem recruitServant_spec (m : Malloc) {l : ServantList} {cs : List (Nat × Item)}
    (hr : Rep l.heap l.leader cs) (devname : String) (pid : Nat) :
    (recruitServant m l devname pid = none ∧ m.alloc l.heap = none) ∨
    ∃ l' cs', recruitServant m l devname pid = some l' ∧ Rep l'.heap l'.leader cs' ∧
      cs'.map cellCall = cs.map cellCall ++ [(devname, pid)] := by
  have hts := hr.tailSearch l.leader hr.length_le_bound
  cases ha : m.alloc l.heap with
  | none => exact .inl ⟨by simp [recruitServant, hts, ha], rfl⟩
  | some n =>
    have hn := m.alloc_fresh ha
    refine .inr ?_
    rcases List.eq_nil_or_concat cs with rfl | ⟨cs, ⟨q, itq⟩, rfl⟩
    · refine ⟨⟨l.heap.write n ⟨devname, pid, none⟩, some n⟩, _, ?_, Rep.single rfl, rfl⟩
      simp [recruitServant, hr.eq_none_of_nil, tailSearch, ha]
    · rw [List.concat_eq_append] at hr hts
      have hq : l.heap.cell q = some itq := hr.cell_of_mem (List.mem_concat_self cs _)
      have hqn := Heap.ne_of_cell hq hn
      refine ⟨⟨(l.heap.write n ⟨devname, pid, none⟩).write q { itq with next := some n },
        l.leader⟩, _, ?_, hr.append hn rfl, by simp [cellCall]⟩
      simp [recruitServant, hts, ha, lastAddr_concat, hqn, hq]

/-- **The calls build their list.** Unless one call's `malloc` answers `NULL`, the calls from
an empty list leave an acyclic list whose cells hold the calls' arguments in call order. -/
theorem recruitAll_rep (m : Malloc) (calls : List (String × Nat)) :
    (∃ pre c post l, calls = pre ++ c :: post ∧ recruitAll m pre = some l ∧
      m.alloc l.heap = none ∧ recruitServant m l c.1 c.2 = none) ∨
    ∃ l cs, recruitAll m calls = some l ∧ Rep l.heap l.leader cs ∧ cs.map cellCall = calls := by
  induction calls using List.reverseRecOn with
  | nil => exact .inr ⟨_, [], rfl, .nil, rfl⟩
  | append_singleton calls c ih =>
    rcases ih with ⟨pre, c', post, l, rfl, hl, hfail⟩ | ⟨l, cs, hl, hr, hcs⟩
    · exact .inl ⟨pre, c', post ++ [c], l, by simp, hl, hfail⟩
    · have hall : recruitAll m (calls ++ [c]) = recruitServant m l c.1 c.2 := by
        rw [recruitAll_concat, hl]; rfl
      rcases recruitServant_spec m hr c.1 c.2 with ⟨hnone, ha⟩ | ⟨l', cs', hl', hr', hcs'⟩
      · exact .inl ⟨calls, c, [], l, by simp, hl, ha, hnone⟩
      · exact .inr ⟨l', cs', hall.trans hl', hr', by rw [hcs', hcs]⟩

/-- **`recruit_servant` builds the list it is called with.** For every sequence of calls
`recruit_servant(d₁, p₁)`, …, `recruit_servant(dₖ, pₖ)` from an empty `servants_leader`:
either one call's `malloc` answered `NULL` (and the process died in `memset`), or walking
`next` from `servants_leader` passes exactly `k` items and then reaches `NULL`, and the items
hold `(d₁, p₁)`, …, `(dₖ, pₖ)` in call order. -/
theorem recruit_servant_builds_list (m : Malloc) (calls : List (String × Nat)) :
    (∃ pre c post l, calls = pre ++ c :: post ∧ recruitAll m pre = some l ∧
      m.alloc l.heap = none ∧ recruitServant m l c.1 c.2 = none) ∨
    ∃ l items, recruitAll m calls = some l ∧ walk l.heap calls.length l.leader = some items ∧
      items.map (fun it => (it.devname, it.pid)) = calls := by
  refine (recruitAll_rep m calls).imp_right ?_
  rintro ⟨l, cs, hl, hr, rfl⟩
  exact ⟨l, _, hl, by simpa using hr.walk, by simp [cellCall, Function.comp_def]⟩

/-- A bump allocator: `malloc` answers the first address above every allocated item. -/
def Malloc.bump : Malloc where
  alloc hp := some hp.bound
  alloc_fresh {hp _} h := by cases h; exact hp.cell_above _ le_rfl

example : (recruitAll Malloc.bump [("/dev/a", 0), ("/dev/b", 0)]).bind
    (fun l => walk l.heap 2 l.leader) = some [⟨"/dev/a", 0, some 1⟩, ⟨"/dev/b", 0, none⟩] := by
  decide

end Sbd
