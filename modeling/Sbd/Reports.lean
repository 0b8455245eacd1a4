import Mathlib.Data.List.Nodup
import Sbd.Basic

/-!
# The report array

The inquisitor counts liveness in `reports`, an array of `expect_report` ints — one per
configured disk — with `0` for a free entry. A `SIG_LIVENESS` from `pid` runs two scans:

* the first stops at an entry equal to `pid` (`has_new = 0`) or at the first `0`, which takes
  `pid` (`has_new = 1`); a scan that meets neither leaves `has_new` as it was;
* if `has_new`, the second finds the first `0`; at an index `≥ expect_report / 2 + 1` the
  watchdog is tickled and the array cleared.

## The shape of the array

Both scans stop at the first zero, so the array behaves as a set only while it keeps the shape
`pack heard free`: distinct nonzero pids, then zeros. `liveness_packed` shows every handling keeps
that shape; `pid = 0` is never stored, because the first scan compares with `pid` before it tests
for a free entry.

## The threshold

The quorum is read off the index of the first free entry *after* the insertion, so it is seen
only while a free entry is left. With `expect_report ≥ 3` that is always so and the array
refines the set the quorum rule speaks of (`liveness_refines`). With one or two disks the array
fills at the quorum's size and the second scan finds no zero: see `Sbd.Quorum`.
-/

namespace Sbd

/-- The first scan of the `SIG_LIVENESS` handler: the new array and `has_new` where the scan
breaks, `none` where it runs off the end. -/
def scanInsert : List Nat → Nat → Option (List Nat × Bool)
  | [], _ => none
  | r :: rs, pid =>
    if r = pid then some (r :: rs, false)
    else if r = 0 then some (pid :: rs, true)
    else (scanInsert rs pid).map fun x => (r :: x.1, x.2)

/-- The second scan: the index of the first zero entry. -/
def firstZero : List Nat → Option Nat
  | [] => none
  | r :: rs => if r = 0 then some 0 else (firstZero rs).map (· + 1)

/-- The report array `reports[0 .. expect_report)` with `has_new`, the flag its first scan
leaves behind. -/
structure Reports where
  entries : List Nat
  hasNew : Bool
  deriving DecidableEq, Repr

namespace Reports

/-- `memset(reports, 0, sizeof(int) * expect_report)`. -/
def clear (r : Reports) : Reports := { r with entries := List.replicate r.entries.length 0 }

/-- The `SIG_LIVENESS` handler's two scans for a sender `pid`: the new array and flag, and
whether `watchdog_tickle` was called. -/
def liveness (r : Reports) (pid : Nat) : Reports × Bool :=
  let r' : Reports := match scanInsert r.entries pid with
    | some (e, b) => ⟨e, b⟩
    | none => r
  if r'.hasNew then
    match firstZero r'.entries with
    | some i => if i ≥ quorum r.entries.length then (r'.clear, true) else (r', false)
    | none => (r', false)
  else (r', false)

@[simp] theorem clear_entries (r : Reports) :
    r.clear.entries = List.replicate r.entries.length 0 := rfl

end Reports

/-! ## Packed arrays -/

/-- The array holding `heard` and then `free` zeros. -/
def pack (heard : List Nat) (free : Nat) : List Nat := heard ++ List.replicate free 0

/-- The shape the report array keeps: distinct nonzero pids, then zeros only. -/
def Packed (l : List Nat) : Prop := ∃ heard free, heard.Nodup ∧ 0 ∉ heard ∧ l = pack heard free

@[simp] theorem length_pack (a : List Nat) (n : Nat) : (pack a n).length = a.length + n := by
  simp [pack]

theorem packed_replicate (n : Nat) : Packed (List.replicate n 0) :=
  ⟨[], n, List.nodup_nil, List.not_mem_nil _, rfl⟩

/-- The first scan passes over the heard pids that are neither the sender nor zero. -/
theorem scanInsert_append {a : List Nat} {p : Nat} (l : List Nat) (hp : p ∉ a) (h0 : 0 ∉ a) :
    scanInsert (a ++ l) p = (scanInsert l p).map fun x => (a ++ x.1, x.2) := by
  induction a with
  | nil => simp
  | cons r a ih =>
    have hr : r ≠ p := fun h => hp (h ▸ List.mem_cons_self _ _)
    have hr0 : r ≠ 0 := fun h => h0 (h ▸ List.mem_cons_self _ _)
    rw [List.cons_append]
    simp only [scanInsert, hr, hr0, if_false]
    rw [ih (fun h => hp (List.mem_cons_of_mem _ h)) (fun h => h0 (List.mem_cons_of_mem _ h)),
      Option.map_map]
    rfl

/-- A scan that meets neither the sender nor a free entry runs off the end. -/
theorem scanInsert_eq_none {a : List Nat} {p : Nat} (hp : p ∉ a) (h0 : 0 ∉ a) :
    scanInsert a p = none := by
  simpa [scanInsert] using scanInsert_append [] hp h0

/-- The first scan stops at the sender's own entry. -/
theorem scanInsert_of_mem {a : List Nat} {p : Nat} (n : Nat) (hp : p ∈ a) (h0 : 0 ∉ a) :
    scanInsert (pack a n) p = some (pack a n, false) := by
  induction a with
  | nil => simp at hp
  | cons r a ih =>
    have hr0 : r ≠ 0 := fun h => h0 (h ▸ List.mem_cons_self _ _)
    by_cases hr : r = p
    · simp [pack, scanInsert, hr]
    · have hp' : p ∈ a := (List.mem_cons.mp hp).resolve_left (Ne.symm hr)
      rw [pack, List.cons_append]
      simp only [scanInsert, hr, hr0, if_false]
      rw [← pack, ih hp' (fun h => h0 (List.mem_cons_of_mem _ h))]
      rfl

theorem firstZero_pack {a : List Nat} (n : Nat) (h0 : 0 ∉ a) :
    firstZero (pack a n) = if n = 0 then none else some a.length := by
  induction a with
  | nil => cases n <;> simp [pack, firstZero, List.replicate_succ]
  | cons r a ih =>
    have hr0 : r ≠ 0 := fun h => h0 (h ▸ List.mem_cons_self _ _)
    rw [pack, List.cons_append]
    simp only [firstZero, hr0, if_false]
    rw [← pack, ih (fun h => h0 (List.mem_cons_of_mem _ h))]
    split <;> simp

namespace Reports

variable {a : List Nat} {n : Nat}

/-- A sender already heard, a zero sender, or a full array: nothing changes but `has_new`, and
the watchdog is not tickled. -/
theorem liveness_of_not_fresh (b : Bool) {p : Nat} (h0 : 0 ∉ a) (hp : p = 0 ∨ p ∈ a ∨ n = 0) :
    (liveness ⟨pack a n, b⟩ p).2 = false ∧ (liveness ⟨pack a n, b⟩ p).1.entries = pack a n := by
  have hfz : firstZero (pack a n) = if n = 0 then none else some a.length := firstZero_pack n h0
  by_cases hmem : p ∈ a
  · simp [liveness, scanInsert_of_mem n hmem h0]
  · rcases hp with rfl | hp | rfl
    · cases n with
      | zero =>
        have hs : scanInsert (pack a 0) 0 = none := by simpa [pack] using scanInsert_eq_none hmem h0
        cases b <;> simp [liveness, hs, hfz]
      | succ n =>
        have hs : scanInsert (pack a (n + 1)) 0 = some (pack a (n + 1), false) := by
          simp [pack, scanInsert_append _ hmem h0, scanInsert, List.replicate_succ]
        simp [liveness, hs]
    · exact absurd hp hmem
    · have hs : scanInsert (pack a 0) p = none := by simpa [pack] using scanInsert_eq_none hmem h0
      cases b <;> simp [liveness, hs, hfz]

/-- A fresh sender with a free entry left takes it; the watchdog is tickled, and the array
cleared, exactly when a free entry is still left after it and the filled ones reach the
quorum of the array's length. -/
theorem liveness_fresh (b : Bool) {p : Nat} (h0 : 0 ∉ a) (hp : p ∉ a) (hp0 : p ≠ 0) :
    liveness ⟨pack a (n + 1), b⟩ p =
      if n ≠ 0 ∧ quorum (a.length + (n + 1)) ≤ a.length + 1 then
        (⟨List.replicate (a.length + (n + 1)) 0, true⟩, true)
      else (⟨pack (a ++ [p]) n, true⟩, false) := by
  have hs : scanInsert (pack a (n + 1)) p = some (pack (a ++ [p]) n, true) := by
    simp [pack, scanInsert_append _ hp h0, scanInsert, List.replicate_succ, hp0.symm]
  have h0' : 0 ∉ a ++ [p] := by simp [h0, hp0.symm]
  have hfz := firstZero_pack n h0'
  simp only [liveness, hs, hfz, List.length_append, List.length_singleton]
  have hlen : a.length + 1 + n = a.length + (n + 1) := by omega
  by_cases hn : n = 0
  · simp [hn]
  · by_cases hq : quorum (a.length + (n + 1)) ≤ a.length + 1
    · simp [hn, hq, clear, hlen]
    · simp [hn, hq, hlen, pack]

theorem length_scanInsert {l l' : List Nat} {p : Nat} {b : Bool}
    (h : scanInsert l p = some (l', b)) : l'.length = l.length := by
  induction l generalizing l' with
  | nil => simp [scanInsert] at h
  | cons r l ih =>
    simp only [scanInsert] at h
    split at h
    · cases h; rfl
    · split at h
      · cases h; rfl
      · obtain ⟨⟨l'', b'⟩, hx, hxe⟩ := Option.map_eq_some'.mp h
        simp only [Prod.mk.injEq] at hxe
        obtain ⟨rfl, rfl⟩ := hxe
        simp [ih hx]

/-- Both scans stay inside the array: its length, `expect_report`, never changes. -/
@[simp] theorem length_liveness (r : Reports) (p : Nat) :
    (r.liveness p).1.entries.length = r.entries.length := by
  unfold liveness
  cases hs : scanInsert r.entries p with
  | none => dsimp only; split <;> (try split) <;> (try split) <;> simp
  | some x =>
    have hx := length_scanInsert hs
    dsimp only
    split <;> (try split) <;> (try split) <;> simp [hx]

/-- What one `SIG_LIVENESS` can do to a packed array: leave it, append a fresh sender, or —
tickling the watchdog — clear it once a fresh sender brings the heard pids to the quorum. -/
theorem liveness_cases (b : Bool) (p : Nat) (h0 : 0 ∉ a) :
    ((liveness ⟨pack a n, b⟩ p).2 = false ∧ (liveness ⟨pack a n, b⟩ p).1.entries = pack a n) ∨
    (p ∉ a ∧ p ≠ 0 ∧ 0 < n ∧ (liveness ⟨pack a n, b⟩ p).2 = false ∧
      (liveness ⟨pack a n, b⟩ p).1.entries = pack (a ++ [p]) (n - 1)) ∨
    (p ∉ a ∧ p ≠ 0 ∧ 1 < n ∧ quorum (a.length + n) ≤ a.length + 1 ∧
      (liveness ⟨pack a n, b⟩ p).2 = true ∧
      (liveness ⟨pack a n, b⟩ p).1.entries = pack [] (a.length + n)) := by
  by_cases hf : p = 0 ∨ p ∈ a ∨ n = 0
  · exact .inl (liveness_of_not_fresh b h0 hf)
  · simp only [not_or] at hf
    obtain ⟨hp0, hp, hn⟩ := hf
    obtain ⟨m, rfl⟩ := Nat.exists_eq_succ_of_ne_zero hn
    rw [liveness_fresh b h0 hp hp0]
    split
    · next hq => exact .inr (.inr ⟨hp, hp0, by omega, hq.2, rfl, by simp [pack]⟩)
    · exact .inr (.inl ⟨hp, hp0, Nat.succ_pos m, rfl, rfl⟩)

/-- **Packing is kept.** Every `SIG_LIVENESS` handling leaves distinct nonzero pids followed
by zeros. -/
theorem liveness_packed {r : Reports} (p : Nat) (h : Packed r.entries) :
    Packed (r.liveness p).1.entries := by
  obtain ⟨a, n, hnd, h0, he⟩ := h
  obtain ⟨e, b⟩ := r
  subst he
  rcases liveness_cases b p h0 with ⟨-, he⟩ | ⟨hp, hp0, -, -, he⟩ | ⟨-, -, -, -, -, he⟩ <;> rw [he]
  · exact ⟨a, n, hnd, h0, rfl⟩
  · exact ⟨a ++ [p], n - 1, List.nodup_append.mpr ⟨hnd, List.nodup_singleton p,
      fun x hx hx' => hp (List.eq_of_mem_singleton hx' ▸ hx)⟩,
      by simp [h0, Ne.symm hp0], rfl⟩
  · exact ⟨[], _, List.nodup_nil, List.not_mem_nil _, rfl⟩

/-- The second scan's threshold is met only in an array of three entries or more. -/
theorem three_le_of_liveness {r : Reports} {p : Nat} (h : Packed r.entries)
    (ht : (r.liveness p).2 = true) : 3 ≤ r.entries.length := by
  obtain ⟨a, n, -, h0, he⟩ := h
  obtain ⟨e, b⟩ := r
  subst he
  rcases @liveness_cases a n b p h0 with ⟨hf, -⟩ | ⟨-, -, -, hf, -⟩ | ⟨-, -, hn, hq, -, -⟩
  · simp [hf] at ht
  · simp [hf] at ht
  · simp only [length_pack, quorum] at hq ⊢
    omega

/-! ## The set the quorum rule speaks of -/

/-- One `SIG_LIVENESS` from `pid` in the quorum rule's own terms, for `n` configured disks: the
distinct senders heard since the last tickle, tickled and emptied when a new sender brings
them to `quorum n`. -/
def heardLiveness (n : Nat) (heard : List Nat) (pid : Nat) : List Nat × Bool :=
  if pid ∈ heard then (heard, false)
  else if heard.length + 1 = quorum n then ([], true)
  else (heard ++ [pid], false)

/-- **Refinement, from three disks up.** While fewer than a quorum of senders are heard, one
`SIG_LIVENESS` from a nonzero pid tickles exactly when the quorum rule does, and leaves the
array packed with the set the rule keeps. -/
theorem liveness_refines {heard : List Nat} {N : Nat} (b : Bool) {p : Nat} (hN : 3 ≤ N)
    (h0 : 0 ∉ heard) (hlt : heard.length < quorum N) (hp0 : p ≠ 0) :
    (liveness ⟨pack heard (N - heard.length), b⟩ p).2 = (heardLiveness N heard p).2 ∧
      (liveness ⟨pack heard (N - heard.length), b⟩ p).1.entries =
        pack (heardLiveness N heard p).1 (N - (heardLiveness N heard p).1.length) := by
  by_cases hp : p ∈ heard
  · simpa [heardLiveness, hp] using
      liveness_of_not_fresh b (n := N - heard.length) h0 (.inr (.inl hp))
  · have hq : quorum N = N / 2 + 1 := rfl
    obtain ⟨m, hm⟩ : ∃ m, N - heard.length = m + 1 := ⟨N - heard.length - 1, by omega⟩
    have hm0 : m ≠ 0 := by omega
    have hlen : heard.length + (m + 1) = N := by omega
    rw [hm, liveness_fresh b h0 hp hp0, hlen]
    by_cases he : heard.length + 1 = quorum N
    · simp [heardLiveness, hp, he, hm0, pack]
    · have hnq : ¬quorum N ≤ heard.length + 1 := by omega
      simp only [heardLiveness, hp, he, if_false, hnq, and_false, List.length_append,
        List.length_singleton, true_and]
      rw [show N - (heard.length + 1) = m by omega]

end Reports

end Sbd
