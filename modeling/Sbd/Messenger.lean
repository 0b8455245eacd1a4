import Sbd.Inquisitor

/-!
# The messenger

`messenger` delivers one message through every disk. It forks a `slot_msg_wrapper` child per
disk, then waits for `SIGCHLD` and drains `waitpid`, counting every reaped child in
`servant_finished` and those that exited 0 in `successed_delivery`. It returns 0 as soon as the
deliveries reach `servant_count / 2 + 1`, and -1 once every child is reaped without that.

## What the counters mean

`Tallied` relates the messenger to the reaps so far: it is still waiting, with the counters equal
to the number of reaps and of exits with status 0 and the children the forked pids not yet
reaped; or it has returned 0 with a quorum of deliveries; or it has returned -1 after all `N`
children with fewer. Every `SIGCHLD` keeps this (`tallied_messengerStep`), and once each child
has been reaped exactly once only the last two cases are left
(`messenger_returns_iff_quorum`).
-/

namespace Sbd

/-- The messenger between two `sigwaitinfo` calls. -/
structure Messenger where
  /-- The servant records, each holding its `slot_msg_wrapper` child's pid. -/
  servants : List Servant
  /-- `servant_count`. -/
  servantCount : Nat
  /-- `servant_finished`. -/
  finished : Nat
  /-- `successed_delivery`. -/
  delivered : Nat
  proc : Proc
  deriving DecidableEq, Repr

/-- One reaped child: count it, count a delivery if it exited 0, and return 0 once the
deliveries reach the quorum. -/
def messengerReap (servantCount : Nat) (o : Proc) (a : Nat × Nat) (_pid : Nat) (st : Status) :
    Proc × (Nat × Nat) :=
  let delivered := if st = .exited 0 then a.2 + 1 else a.2
  (if delivered ≥ quorum servantCount then o.halt (.returned 0) else o, (a.1 + 1, delivered))

/-- The test of `while (servant_finished < servant_count)` and, once it fails, the return. -/
def messengerCheck (m : Messenger) : Messenger :=
  if m.proc.ending.isSome ∨ m.finished < m.servantCount then m
  else
    { m with proc := m.proc.halt (.returned (if m.delivered ≥ quorum m.servantCount then 0 else -1)) }

/-- One `SIGCHLD`, the only signal `messenger` waits for, and the drain of `waitpid`. -/
def messengerStep (m : Messenger) (reaped : List (Nat × Status)) : Messenger :=
  if m.proc.ending.isSome then m
  else
    let r := waitLoop (messengerReap m.servantCount) m.proc (m.finished, m.delivered) reaped
    messengerCheck { m with proc := r.1, finished := r.2.1, delivered := r.2.2 }

/-- `messenger(name, msg)` up to its first `sigwaitinfo`: a `slot_msg_wrapper` child per disk. -/
def messenger (k : Kernel) (devs : List String) : Messenger :=
  let r := forkAll k .slotMsg Proc.fresh (devs.map (⟨·, 0⟩))
  messengerCheck ⟨r.2, devs.length, 0, 0, r.1⟩

@[simp] theorem messengerCheck_servantCount (m : Messenger) :
    (messengerCheck m).servantCount = m.servantCount := by
  simp only [messengerCheck]
  split_ifs <;> rfl

@[simp] theorem messengerCheck_children (m : Messenger) :
    (messengerCheck m).proc.children = m.proc.children := by
  simp only [messengerCheck]
  split_ifs <;> rfl

@[simp] theorem messengerStep_servantCount (m : Messenger) (b : List (Nat × Status)) :
    (messengerStep m b).servantCount = m.servantCount := by
  simp only [messengerStep]
  split_ifs <;> simp

/-- The children that exited 0 among reaps `l`. -/
def exitedZero (l : List (Nat × Status)) : Nat := l.countP fun x => x.2 = .exited 0

@[simp] theorem exitedZero_append (l₁ l₂ : List (Nat × Status)) :
    exitedZero (l₁ ++ l₂) = exitedZero l₁ + exitedZero l₂ :=
  List.countP_append _ _ _

@[simp] theorem exitedZero_nil : exitedZero [] = 0 := rfl

/-- `forkAll` forks one child per record, unless a failed fork exits 1. -/
theorem forkAll_cases {k : Kernel} {j : Job} :
    ∀ (o : Proc) (ss : List Servant), o.ending = none → o.children.Nodup →
      (forkAll k j o ss).1.ending = some (.exit 1) ∨
        ((forkAll k j o ss).1.ending = none ∧ (forkAll k j o ss).1.children.Nodup ∧
          (forkAll k j o ss).1.children.length = o.children.length + ss.length)
  | o, [], he, hnd => .inr ⟨he, hnd, rfl⟩
  | o, s :: ss, he, hnd => by
    rcases assignServant_cases k o s.devname j with ⟨p, -, hpc, ha⟩ | ha
    · have ih := forkAll_cases (k := k) (j := j) (assignServant k o s.devname j).1 ss
        (by rw [ha]; exact he) (by rw [ha]; exact List.nodup_cons.mpr ⟨hpc, hnd⟩)
      simp only [forkAll, ha] at ih ⊢
      rcases ih with h | ⟨he', hnd', hl⟩
      · exact .inl h
      · exact .inr ⟨he', hnd', by simp only [hl, List.length_cons]; omega⟩
    · simp only [forkAll, ha, true_or]

/-! ## What the counters mean -/

section Tally

variable {N : Nat} {forked : List Nat}

/-- The drain's counters `(servant_finished, successed_delivery)` after the reaps `done`: still
counting, short of the quorum, with the unreaped forked pids as children — or returned 0. -/
inductive Counting (N : Nat) (forked : List Nat) (o : Proc) (f d : Nat)
    (done : List (Nat × Status)) : Prop
  | counting (hrun : o.ending = none) (hf : f = done.length) (hd : d = exitedZero done)
      (hq : d < quorum N) (hc : (o.children ++ done.map Prod.fst).Perm forked)
  | delivered (he : o.ending = some (.returned 0)) (hq : quorum N ≤ exitedZero done)

/-- The messenger after the reaps `done`, `forked` the pids it forked for its `N` disks. -/
inductive Tallied (N : Nat) (forked : List Nat) (m : Messenger) (done : List (Nat × Status)) :
    Prop
  | waiting (hrun : m.proc.ending = none) (hf : m.finished = done.length)
      (hd : m.delivered = exitedZero done) (hq : m.delivered < quorum N)
      (hc : (m.proc.children ++ done.map Prod.fst).Perm forked) (hlt : done.length < N)
  | delivered (he : m.proc.ending = some (.returned 0)) (hq : quorum N ≤ exitedZero done)
  | failed (he : m.proc.ending = some (.returned (-1))) (hlen : done.length = N)
      (hq : exitedZero done < quorum N) (hf : m.finished = N)

/-- Distinct reaps of forked children are at most as many as the children. -/
theorem length_le_of_reaps {l : List (Nat × Status)} (hnd : (l.map Prod.fst).Nodup)
    (hsub : ∀ x ∈ l, x.1 ∈ forked) : l.length ≤ forked.length := by
  have := (List.subperm_of_subset hnd fun p hp => by
    obtain ⟨x, hx, rfl⟩ := List.mem_map.mp hp
    exact hsub x hx).length_le
  simpa using this

theorem counting_reap {o : Proc} {f d : Nat} {done : List (Nat × Status)} {p : Nat} (st : Status)
    (hrun : o.ending = none) (hf : f = done.length) (hd : d = exitedZero done)
    (hc : (o.children ++ done.map Prod.fst).Perm forked) (hp : p ∈ o.children) :
    Counting N forked (messengerReap N (o.reap p) (f, d) p st).1
      (messengerReap N (o.reap p) (f, d) p st).2.1 (messengerReap N (o.reap p) (f, d) p st).2.2
      (done ++ [(p, st)]) := by
  have hc' : ((o.reap p).children ++ (done ++ [(p, st)]).map Prod.fst).Perm forked := by
    refine List.Perm.trans ?_ hc
    simp only [Proc.reap_children, List.map_append, List.map_cons, List.map_nil,
      ← List.append_assoc]
    exact (List.perm_append_singleton _ _).trans ((List.perm_cons_erase hp).symm.append_right _)
  have hd' : (if st = .exited 0 then d + 1 else d) = exitedZero (done ++ [(p, st)]) := by
    by_cases hs : st = .exited 0 <;> simp [exitedZero, hs, hd]
  simp only [messengerReap, hd']
  split
  · exact .delivered rfl ‹_›
  · exact .counting hrun (by simp [hf]) rfl (by omega) hc'

theorem counting_waitLoop :
    ∀ (b : List (Nat × Status)) {o : Proc} {f d : Nat} {done : List (Nat × Status)},
      ((done ++ b).map Prod.fst).Nodup → (∀ x ∈ b, x.1 ∈ forked) → Counting N forked o f d done →
      Counting N forked (waitLoop (messengerReap N) o (f, d) b).1
        (waitLoop (messengerReap N) o (f, d) b).2.1 (waitLoop (messengerReap N) o (f, d) b).2.2
        (done ++ b)
  | [], _, _, _, _, _, _, hc => by simpa using hc
  | (p, st) :: rest, o, f, d, done, hnd, hsub, hc => by
    cases hc with
    | counting hrun hf hd hq hperm =>
      have hp : p ∈ o.children := by
        have hpf := hsub _ (List.mem_cons_self _ _)
        rw [← hperm.mem_iff, List.mem_append] at hpf
        refine hpf.resolve_right fun hm => ?_
        simp only [List.map_append, List.map_cons, List.nodup_append,
          List.disjoint_cons_right] at hnd
        exact hnd.2.2.1 hm
      rw [waitLoop_cons_of_mem st rest hrun hp]
      have := counting_waitLoop rest (by simpa using hnd)
        (fun x hx => hsub x (List.mem_cons_of_mem _ hx))
        (counting_reap st hrun hf hd hperm hp)
      simpa using this
    | delivered he hq =>
      rw [waitLoop_of_ended _ _ (by simp [he])]
      exact .delivered he (hq.trans (by simp))

/-- **One `SIGCHLD` keeps the tally.** -/
theorem tallied_messengerStep (hN : forked.length = N) {m : Messenger}
    {done b : List (Nat × Status)} (hcount : m.servantCount = N)
    (hnd : ((done ++ b).map Prod.fst).Nodup) (hsub : ∀ x ∈ done ++ b, x.1 ∈ forked)
    (ht : Tallied N forked m done) : Tallied N forked (messengerStep m b) (done ++ b) := by
  have hlen := hN ▸ length_le_of_reaps hnd hsub
  cases ht with
  | waiting hrun hf hd hq hc hlt =>
    subst hcount
    simp only [messengerStep, hrun, Option.isSome_none, Bool.false_eq_true, if_false]
    cases counting_waitLoop b hnd (fun x hx => hsub x (List.mem_append_right _ hx))
      (.counting hrun hf hd hq hc) with
    | counting hrun' hf' hd' hq' hc' =>
      simp only [messengerCheck, hrun', Option.isSome_none, Bool.false_eq_true, false_or]
      split
      · exact .waiting hrun' hf' hd' hq' hc' (hf' ▸ ‹_›)
      · have hdone : (done ++ b).length = m.servantCount := by omega
        refine .failed ?_ hdone (hd' ▸ hq') (by dsimp only; omega)
        simp only [Proc.halt_ending, Option.some.injEq, Ending.returned.injEq]
        rw [if_neg (by omega)]
    | delivered he hq' =>
      simp only [messengerCheck, he, Option.isSome_some, true_or, if_true]
      exact .delivered he hq'
  | delivered he hq =>
    rw [messengerStep, if_pos (by simp [he])]
    exact .delivered he (hq.trans (by simp))
  | failed he hl hq hf =>
    rw [messengerStep, if_pos (by simp [he])]
    have hb : b = [] := List.eq_nil_of_length_eq_zero (by simp at hlen; omega)
    subst hb
    simpa using Tallied.failed he hl hq hf

theorem tallied_foldl (hN : forked.length = N) :
    ∀ (bs : List (List (Nat × Status))) {m : Messenger} {done : List (Nat × Status)},
      m.servantCount = N → ((done ++ bs.flatten).map Prod.fst).Nodup →
      (∀ x ∈ done ++ bs.flatten, x.1 ∈ forked) → Tallied N forked m done →
      Tallied N forked (bs.foldl messengerStep m) (done ++ bs.flatten)
  | [], m, done, _, _, _, ht => by simpa using ht
  | b :: bs, m, done, hc, hnd, hsub, ht => by
    rw [List.flatten_cons, ← List.append_assoc] at hnd hsub ⊢
    exact tallied_foldl hN bs (by simpa using hc) hnd hsub
      (tallied_messengerStep hN hc (by rw [List.map_append] at hnd; exact hnd.of_append_left)
        (fun x hx => hsub x (List.mem_append_left _ hx)) ht)

end Tally

theorem tallied_messenger {k : Kernel} {devs : List String}
    (he : (forkAll k .slotMsg Proc.fresh (devs.map (⟨·, 0⟩))).1.ending = none) :
    Tallied devs.length (messenger k devs).proc.children (messenger k devs) [] := by
  simp only [messenger, messengerCheck_children]
  simp only [messengerCheck, he, Option.isSome_none, Bool.false_eq_true, false_or]
  split
  · next hpos => exact .waiting he rfl rfl (by simp [quorum]) (by simp) (by simpa using hpos)
  · next h0 =>
    have hN : devs.length = 0 := by omega
    exact .failed (by simp [hN, quorum]) (by simp [hN]) (by simp [quorum]) hN.symm

end Sbd
