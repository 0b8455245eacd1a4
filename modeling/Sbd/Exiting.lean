import Mathlib.Data.List.Forall2
import Sbd.Records

/-!
# The exit cascade

`SIG_EXITREQ` sends `SIGKILL` to every live servant, closes the watchdog with the magic
character, and latches `exiting`. From then on the steady loop only reaps: `SIG_LIVENESS` and
`SIGUSR1` are skipped, a reaped child's record is cleared and never respawned, and the process
calls `exit(0)` once `check_all_dead` finds no record whose pid answers the probe.

`exiting_run` states this over every continuation of the run, whatever signals arrive: the
flag stays set, the log grows by `SIGKILL`s and magic closes only — no tickle, no fork — the
records keep their devices and can only lose their pids, and an `exit(0)` happens only where
`check_all_dead` holds. `check_all_dead`'s comments call a pid that fails the probe "live";
`checkAllDead_iff` reads the code instead.

## The cascade completes

By the records invariant a record's nonzero pid is a child, so `check_all_dead` holds exactly
when no child is left; the reap of the last servant therefore exits 0
(`exit_cascade_completes`). The exit happens only inside the `SIGCHLD` handler, so an exit
request that finds no servant child left is never completed: every record holds 0, yet no
signal ends the process (`exiting_without_children_never_ends`).
-/

namespace Sbd

/-- The record `r'` is `r`, its pid possibly cleared. -/
def PidCleared (r r' : Servant) : Prop := r'.devname = r.devname ∧ (r'.pid = r.pid ∨ r'.pid = 0)

theorem forall₂_pidCleared_trans {l₁ l₂ l₃ : List Servant} (h₁ : List.Forall₂ PidCleared l₁ l₂)
    (h₂ : List.Forall₂ PidCleared l₂ l₃) : List.Forall₂ PidCleared l₁ l₃ := by
  induction h₁ generalizing l₃ with
  | nil => cases h₂; exact .nil
  | cons hab _ ih =>
    cases h₂ with
    | cons hbc h₂ =>
      refine .cons ⟨hbc.1.trans hab.1, ?_⟩ (ih h₂)
      rcases hbc.2 with h | h <;> rcases hab.2 with h' | h' <;> omega

theorem forall₂_pidCleared_refl (ss : List Servant) : List.Forall₂ PidCleared ss ss :=
  List.forall₂_same.mpr fun _ _ => ⟨rfl, .inl rfl⟩

theorem forall₂_pidCleared_cleanup (ss : List Servant) (p : Nat) :
    List.Forall₂ PidCleared ss (cleanupServantByPid ss p) := by
  induction ss with
  | nil => exact .nil
  | cons s ss ih =>
    unfold cleanupServantByPid setPid
    split
    · exact .cons ⟨rfl, .inr rfl⟩ (forall₂_pidCleared_refl ss)
    · exact .cons ⟨rfl, .inl rfl⟩ ih

/-- `check_all_dead` returns `1` exactly when every record's pid is `0` or names no process. -/
theorem checkAllDead_iff (k : Kernel) (o : Proc) (ss : List Servant) :
    checkAllDead k o ss = true ↔ ∀ r ∈ ss, r.pid = 0 ∨ o.alive k r.pid = false := by
  induction ss with
  | nil => simp [checkAllDead]
  | cons s ss ih =>
    by_cases hs : s.pid ≠ 0 ∧ o.alive k s.pid
    · simp only [checkAllDead, hs, if_true, List.mem_cons, forall_eq_or_imp]
      simp [hs.1, hs.2]
    · have hhead : s.pid = 0 ∨ o.alive k s.pid = false := by
        by_cases h0 : s.pid = 0
        · exact .inl h0
        · exact .inr (by simpa [h0] using hs)
      simp only [checkAllDead, hs, if_false, ih, List.mem_cons, forall_eq_or_imp, hhead, true_and]

@[simp] theorem checkAllDead_halt (k : Kernel) (o : Proc) (e : Ending) (ss : List Servant) :
    checkAllDead k (o.halt e) ss = checkAllDead k o ss := by
  induction ss with
  | nil => rfl
  | cons s ss ih => simp [checkAllDead, Proc.alive, ih]

/-- What the `waitpid` loop does while exiting: clear records, and `exit(0)` only where
`check_all_dead` holds. -/
theorem waitLoop_exiting (k : Kernel) (o : Proc) (ss : List Servant) (l : List (Nat × Status))
    (hrun : o.ending = none) :
    (waitLoop (steadyReap k true) o ss l).1.log = o.log ∧
      (waitLoop (steadyReap k true) o ss l).1.children ⊆ o.children ∧
      List.Forall₂ PidCleared ss (waitLoop (steadyReap k true) o ss l).2 ∧
      ((waitLoop (steadyReap k true) o ss l).1.ending = none ∨
        ((waitLoop (steadyReap k true) o ss l).1.ending = some (.exit 0) ∧
          checkAllDead k (waitLoop (steadyReap k true) o ss l).1
            (waitLoop (steadyReap k true) o ss l).2 = true)) := by
  refine waitLoop_induction (fun o' a => o'.log = o.log ∧ o'.children ⊆ o.children ∧
      List.Forall₂ PidCleared ss a ∧ (o'.ending = none ∨
        (o'.ending = some (.exit 0) ∧ checkAllDead k o' a = true))) ?_ o ss l
    ⟨rfl, List.Subset.refl _, forall₂_pidCleared_refl ss, .inl hrun⟩
  rintro o' a p st ⟨hl, hc, hf, -⟩ hend -
  have hf' := forall₂_pidCleared_trans hf (forall₂_pidCleared_cleanup a p)
  have hc' : (o'.reap p).children ⊆ o.children := fun x hx => hc (List.mem_of_mem_erase hx)
  simp only [steadyReap, if_true]
  split
  · next hd => exact ⟨hl, hc', hf', .inr ⟨rfl, by simpa using hd⟩⟩
  · exact ⟨hl, hc', hf', .inl (by simpa using hend)⟩


variable {h : Host} {s : Inquisitor}

/-- One signal after the exit request: nothing but `SIGKILL`s and the magic close is shown, and
the process ends only by an `exit(0)` that `check_all_dead` allowed. -/
theorem step_exiting (hs : s.steady = true) (hx : s.exiting = true) (hrun : s.proc.ending = none)
    (sig : Signal) :
    (step h s sig).steady = true ∧ (step h s sig).exiting = true ∧
      Grows (fun e => e = .watchdogClose ∨ ∃ q, e = .kill q) s.proc (step h s sig).proc ∧
      List.Forall₂ PidCleared s.servants (step h s sig).servants ∧
      ((step h s sig).proc.ending = none ∨ ((step h s sig).proc.ending = some (.exit 0) ∧
        checkAllDead h.kernel (step h s sig).proc (step h s sig).servants = true)) := by
  rw [step_of_steady sig hrun hs]
  cases sig with
  | exitreq =>
    obtain ⟨h1, -, h3, -⟩ := foreachServants_callback h.kernel s.proc s.servants
    exact ⟨hs, rfl, grows_exitreq h.kernel s,
      by simpa [steadyStep, h1] using forall₂_pidCleared_refl s.servants,
      .inl (by simp [steadyStep, h3, hrun])⟩
  | chld l =>
    obtain ⟨hl, -, hf, he⟩ := waitLoop_exiting h.kernel s.proc s.servants l hrun
    exact ⟨hs, hx, .of_log (by simpa [steadyStep, hx] using hl), by simpa [steadyStep, hx] using hf,
      by simpa [steadyStep, hx] using he⟩
  | liveness p =>
    rw [show steadyStep h.kernel s (.liveness p) = s by simp [steadyStep, hx]]
    exact ⟨hs, hx, .rfl', forall₂_pidCleared_refl _, .inl hrun⟩
  | test => exact ⟨hs, hx, .rfl', forall₂_pidCleared_refl _, .inl hrun⟩
  | usr1 =>
    rw [show steadyStep h.kernel s .usr1 = s by simp [steadyStep, hx]]
    exact ⟨hs, hx, .rfl', forall₂_pidCleared_refl _, .inl hrun⟩
  | usr2 => exact ⟨hs, hx, .rfl', forall₂_pidCleared_refl _, .inl hrun⟩

theorem run_of_ended (sigs : List Signal) (hs : s.proc.ending.isSome) : run h s sigs = s := by
  induction sigs with
  | nil => rfl
  | cons sig sigs ih => simpa [run, step_of_ended sig hs] using ih

theorem run_cons (sig : Signal) (sigs : List Signal) :
    run h s (sig :: sigs) = run h (step h s sig) sigs := rfl

/-- **After `SIG_EXITREQ`.** Whatever signals follow the first exit request, `exiting` stays
set; the log grows by `SIGKILL`s and magic closes only, so the watchdog is never tickled and no
servant is forked again; every record keeps its device and its pid or loses it to `0`; and the
process ends, if at all, by an `exit(0)` in a state where every record's pid is `0` or names no
process — where `check_all_dead` returns `1`. -/
theorem exiting_run (hs : s.steady = true) (hx : s.exiting = true) (hrun : s.proc.ending = none)
    (sigs : List Signal) :
    (run h s sigs).exiting = true ∧
      Grows (fun e => e = .watchdogClose ∨ ∃ q, e = .kill q) s.proc (run h s sigs).proc ∧
      List.Forall₂ PidCleared s.servants (run h s sigs).servants ∧
      ((run h s sigs).proc.ending = none ∨ ((run h s sigs).proc.ending = some (.exit 0) ∧
        ∀ r ∈ (run h s sigs).servants,
          r.pid = 0 ∨ (run h s sigs).proc.alive h.kernel r.pid = false)) := by
  induction sigs generalizing s with
  | nil => exact ⟨hx, .rfl', forall₂_pidCleared_refl _, .inl hrun⟩
  | cons sig sigs ih =>
    obtain ⟨hs1, hx1, hg1, hf1, he1⟩ := step_exiting (h := h) hs hx hrun sig
    rw [run_cons]
    rcases he1 with he1 | ⟨he1, hd1⟩
    · obtain ⟨hx2, hg2, hf2, he2⟩ := ih hs1 hx1 he1
      exact ⟨hx2, hg1.trans hg2, forall₂_pidCleared_trans hf1 hf2, he2⟩
    · rw [run_of_ended sigs (by simp [he1])]
      exact ⟨hx1, hg1, hf1, .inr ⟨he1, (checkAllDead_iff _ _ _).mp hd1⟩⟩


theorem exiting_run_after_exitreq :
    let h : Host := ⟨Kernel.sequential, fun _ => some ⟨5, 1, 10⟩, true⟩
    let s := run h (inquisitor h ["/dev/sda"] ⟨5, 1, 10⟩) [.chld [(1, .exited 0)], .exitreq]
    let sigs : List Signal := [.liveness 2, .usr1, .chld [(2, .signaled sigKill)]]
    s.steady = true ∧ s.exiting = true ∧ s.proc.ending = none ∧
      (run h s sigs).exiting = true ∧
      Grows (fun e => e = .watchdogClose ∨ ∃ q, e = .kill q) s.proc (run h s sigs).proc ∧
      List.Forall₂ PidCleared s.servants (run h s sigs).servants ∧
      ((run h s sigs).proc.ending = none ∨ ((run h s sigs).proc.ending = some (.exit 0) ∧
        ∀ r ∈ (run h s sigs).servants,
          r.pid = 0 ∨ (run h s sigs).proc.alive h.kernel r.pid = false)) :=
  ⟨by decide, by decide, by decide, exiting_run (by decide) (by decide) (by decide) _⟩

/-! ## The cascade completes -/

/-- With the records accounting for the children, `check_all_dead` holds exactly when no child
is left. -/
theorem Accounts.checkAllDead_iff_nil {k : Kernel} {o : Proc} {ss : List Servant}
    (ha : Accounts o [] ss) : checkAllDead k o ss = true ↔ o.children = [] := by
  rw [checkAllDead_iff]
  constructor
  · intro hd
    refine List.eq_nil_iff_forall_not_mem.mpr fun q hq => ?_
    obtain ⟨hq0, r, hr, rfl⟩ := mem_livePids.mp (ha.livePids_of_child hq)
    rcases hd r hr with h0 | hal
    · exact hq0 h0
    · simp [Proc.alive, hq] at hal
  · intro hc r hr
    by_cases h0 : r.pid = 0
    · exact .inl h0
    · have : r.pid ∈ o.children :=
        ha.perm.subset (List.mem_append_right _ (mem_livePids.mpr ⟨h0, r, hr, rfl⟩))
      simp [hc] at this

/-- While exiting, a drain whose `waitpid`s return every child ends in `exit(0)`: the reap of
the last child finds every record dead. -/
theorem waitLoop_exits {k : Kernel} :
    ∀ (l : List (Nat × Status)) {o : Proc} {ss : List Servant}, Accounts o [] ss →
      o.ending = none → o.children ≠ [] → (∀ p ∈ o.children, p ∈ l.map Prod.fst) →
      (waitLoop (steadyReap k true) o ss l).1.ending = some (.exit 0)
  | [], _, _, _, _, hne, hl =>
    absurd (List.eq_nil_iff_forall_not_mem.mpr fun p hp => by simpa using hl p hp) hne
  | (p, st) :: rest, o, ss, ha, hrun, hne, hl => by
    -- a child other than `p` is left to the rest of the batch
    have hrest : ∀ {o' : Proc}, (∀ q ∈ o'.children, q ∈ o.children ∧ q ≠ p) →
        ∀ q ∈ o'.children, q ∈ rest.map Prod.fst := fun hsub q hq => by
      obtain ⟨hq, hqp⟩ := hsub q hq
      simpa [hqp] using hl q hq
    by_cases hp : p ∈ o.children
    · have ha' := ha.cleanup hp
      have hr : steadyReap k true (o.reap p) ss p st =
          (if checkAllDead k (o.reap p) (cleanupServantByPid ss p) then (o.reap p).halt (.exit 0)
            else o.reap p, cleanupServantByPid ss p) := rfl
      rw [waitLoop_cons_of_mem st rest hrun hp, hr]
      by_cases hd : checkAllDead k (o.reap p) (cleanupServantByPid ss p) = true
      · rw [if_pos hd, waitLoop_of_ended _ _ (by simp)]
        rfl
      · rw [if_neg hd]
        exact waitLoop_exits rest ha' hrun (fun h => hd (ha'.checkAllDead_iff_nil.mpr h))
          (hrest fun q hq => ((ha.nodup.mem_erase_iff).mp hq).symm)
    · have hskip : waitLoop (steadyReap k true) o ss ((p, st) :: rest) =
          waitLoop (steadyReap k true) o ss rest := by simp [waitLoop, hrun, hp]
      rw [hskip]
      exact waitLoop_exits rest ha hrun hne (hrest fun q hq => ⟨hq, fun h => hp (h ▸ hq)⟩)

/-- **The exit cascade completes.** In a reachable state of the steady loop after the exit
request, with servants still to reap, a `SIGCHLD` whose `waitpid`s return every remaining child
makes the process `exit(0)`. -/
theorem exit_cascade_completes {devs : List String} {t : Timeouts} (hs : Reachable h devs t s)
    (hst : s.steady = true) (hx : s.exiting = true) (hrun : s.proc.ending = none)
    (hne : s.proc.children ≠ []) (l : List (Nat × Status))
    (hl : ∀ p ∈ s.proc.children, p ∈ l.map Prod.fst) :
    (step h s (.chld l)).proc.ending = some (.exit 0) := by
  rw [step_of_steady _ hrun hst]
  simp only [steadyStep, hx]
  exact waitLoop_exits l (sound_of_reachable hs hrun).accounts hrun hne hl

/-- Three disks: the exit request, then the three killed servants reaped in one drain. -/
theorem exit_cascade_completes_after_exitreq :
    let h : Host := ⟨Kernel.sequential, fun _ => some ⟨5, 1, 10⟩, true⟩
    let s := run h (inquisitor h ["a", "b", "c"] ⟨5, 1, 10⟩)
      [.chld [(1, .exited 0), (2, .exited 0), (3, .exited 0)], .exitreq]
    let l := [(4, Status.signaled 9), (5, .signaled 9), (6, .signaled 9)]
    (Reachable h ["a", "b", "c"] ⟨5, 1, 10⟩ s ∧ s.steady = true ∧ s.exiting = true ∧
      s.proc.ending = none ∧ s.proc.children ≠ [] ∧ ∀ p ∈ s.proc.children, p ∈ l.map Prod.fst) ∧
      (step h s (.chld l)).proc.ending = some (.exit 0) :=
  ⟨⟨reachable_run _ _ _ _, by decide, by decide, by decide, by decide, by decide⟩,
    exit_cascade_completes (reachable_run _ _ _ _) (by decide) (by decide) (by decide)
      (by decide) _ (by decide)⟩

/-! ## An exit request with no servant left -/

/-- With no child, every pid a drain returns is skipped. -/
theorem waitLoop_no_children {α : Type} {body : Proc → α → Nat → Status → Proc × α} {o : Proc}
    (a : α) (hc : o.children = []) : ∀ l, waitLoop body o a l = (o, a)
  | [] => rfl
  | (_, _) :: rest => by simp [waitLoop, hc, waitLoop_no_children a hc rest]

/-- After the exit request and with no child left, a signal changes neither the ending nor the
children, and the loop stays exiting. -/
theorem step_exiting_no_children (hs : s.steady = true) (hx : s.exiting = true)
    (hc : s.proc.children = []) (sig : Signal) :
    (step h s sig).proc.ending = s.proc.ending ∧ (step h s sig).proc.children = [] ∧
      (step h s sig).steady = true ∧ (step h s sig).exiting = true := by
  by_cases hend : s.proc.ending.isSome
  · rw [step_of_ended sig hend]
    exact ⟨rfl, hc, hs, hx⟩
  rw [step_of_steady sig (by simpa using hend) hs]
  cases sig with
  | exitreq =>
    obtain ⟨-, hc₁, he₁, -⟩ := foreachServants_callback h.kernel s.proc s.servants
    exact ⟨by simp [steadyStep, he₁], by simp [steadyStep, hc₁, hc], hs, rfl⟩
  | chld l => simp [steadyStep, waitLoop_no_children _ hc l, hc, hs, hx]
  | _ => simp [steadyStep, hc, hs, hx]

/-- **An exit request with no servant left hangs.** In the steady loop after the exit request,
once the inquisitor has no unreaped child, no sequence of signals ends it: `exit(0)` is reached
only from the reap of a child, so the records all holding 0 is never acted on. -/
theorem exiting_without_children_never_ends (hs : s.steady = true) (hx : s.exiting = true)
    (hrun : s.proc.ending = none) (hc : s.proc.children = []) (sigs : List Signal) :
    (run h s sigs).proc.ending = none := by
  induction sigs generalizing s with
  | nil => exact hrun
  | cons sig sigs ih =>
    obtain ⟨he, hc', hs', hx'⟩ := step_exiting_no_children (h := h) hs hx hc sig
    exact ih hs' hx' (he.trans hrun) hc'

/-- Three disks: every servant is killed with `SIGKILL` and reaped, then the exit request. -/
theorem exiting_without_children_after_kills :
    let h : Host := ⟨Kernel.sequential, fun _ => some ⟨5, 1, 10⟩, true⟩
    let s := run h (inquisitor h ["a", "b", "c"] ⟨5, 1, 10⟩)
      [.chld [(1, .exited 0), (2, .exited 0), (3, .exited 0)],
        .chld [(4, .signaled 9), (5, .signaled 9), (6, .signaled 9)], .exitreq]
    let sigs : List Signal := [.chld [(4, .exited 0)], .usr1, .exitreq, .liveness 4]
    (s.steady = true ∧ s.exiting = true ∧ s.proc.ending = none ∧ s.proc.children = []) ∧
      (run h s sigs).proc.ending = none :=
  ⟨by decide, exiting_without_children_never_ends (by decide) (by decide) (by decide) (by decide)
    _⟩

end Sbd
