import Sbd.Records

/-!
# The inquisitor kills its own servants only

`SIGKILL` is sent in one place: the `SERVANT_CALLBACK` mission of `foreach_servants`, which the
`SIG_EXITREQ` handler runs, sends `sigqueue(pid, SIGKILL, ...)` to every record whose pid is
nonzero and answers the probe `sigqueue(pid, 0, ...)`. The probe cannot tell a servant from any
other process holding the pid: had a record kept the pid of a reaped child, the kernel could have
handed it on, and the exit request would kill a stranger.

By the records invariant (`Sbd.RecordsInv`) a record's nonzero pid is always an unreaped child,
so this never happens. From every reachable state, the `SIGKILL`s of a step are the unreaped
children, each once, when the step is the steady loop's `SIG_EXITREQ`, and there are none
otherwise (`kills_only_own_children`).
-/

namespace Sbd

/-- The pid an effect sends `SIGKILL` to. -/
def Effect.killed : Effect → Option Nat
  | .kill q => some q
  | _ => none

/-- A step that appends only effects allowed by `p`, none of them a `SIGKILL`, kills nothing. -/
theorem Grows.killed_eq_nil {p : Effect → Prop} {o o' : Proc} (hg : Grows p o o')
    (hp : ∀ e, p e → e.killed = none) :
    ∃ fs, o'.log = o.log ++ fs ∧ fs.filterMap Effect.killed = [] := by
  obtain ⟨fs, hl, hfs⟩ := hg
  exact ⟨fs, hl, List.filterMap_eq_nil_iff.mpr fun e he => hp e (hfs e he)⟩

/-- `SERVANT_CALLBACK` over records whose nonzero pids are all unreaped children kills each of
them, in list order, and does nothing else. -/
theorem foreachServants_callback_log (k : Kernel) :
    ∀ (o : Proc) (ss : List Servant), o.ending = none → (∀ p ∈ livePids ss, p ∈ o.children) →
      (foreachServants k .callback o ss).1.log = o.log ++ (livePids ss).map .kill
  | o, [], _, _ => by simp [foreachServants]
  | o, s :: ss, he, hc => by
    by_cases hs : s.pid = 0
    · have hv : visitServant k .callback o s = (o, s) := by simp [visitServant, hs]
      have ih := foreachServants_callback_log k o ss he fun p hp =>
        hc p (by simp [livePids, hs, hp])
      simp [foreachServants, hv, he, ih, livePids, hs]
    · have hv : visitServant k .callback o s = (o.emit (.kill s.pid), s) := by
        simp [visitServant, hs, Proc.alive_of_mem (hc s.pid (by simp [livePids, hs]))]
      have ih := foreachServants_callback_log k (o.emit (.kill s.pid)) ss he fun p hp =>
        hc p (by simp [livePids, hs, hp])
      simp [foreachServants, hv, he, ih, livePids, hs]

variable {h : Host} {devs : List String} {t : Timeouts} {s : Inquisitor}

/-- The steady loop's `SIG_EXITREQ`, in a running state whose records account for its children,
sends `SIGKILL` to each child once. -/
theorem exitreq_kills_children (hi : RecordsInv devs s.proc s.servants)
    (hrun : s.proc.ending = none) :
    ∃ fs, (steadyStep h.kernel s .exitreq).proc.log = s.proc.log ++ fs ∧
      (fs.filterMap Effect.killed).Perm s.proc.children := by
  have hp : (livePids s.servants).Perm s.proc.children := by simpa using hi.accounts.perm
  refine ⟨(livePids s.servants).map .kill ++ [.watchdogClose], ?_, ?_⟩
  · simp [steadyStep,
      foreachServants_callback_log h.kernel s.proc s.servants hrun fun p hq => hp.subset hq]
  · simpa [List.filterMap_append, List.filterMap_map, Effect.killed, Function.comp_def] using hp

/-- **Only its own servants are killed.** From every reachable state, the `SIGKILL`s a step
sends are the unreaped children, each once, when the step is the steady loop's `SIG_EXITREQ`, and
there are none otherwise: no record ever holds the pid of a reaped child, so no other process is
killed. -/
theorem kills_only_own_children (hs : Reachable h devs t s) (sig : Signal) :
    ∃ fs, (step h s sig).proc.log = s.proc.log ++ fs ∧
      (fs.filterMap Effect.killed).Perm
        (if s.proc.ending = none ∧ s.steady = true ∧ sig = .exitreq then s.proc.children
          else []) := by
  by_cases hend : s.proc.ending = none
  swap
  · rw [step_of_ended sig (Option.ne_none_iff_isSome.mp hend)]
    exact ⟨[], by simp, by simp [hend]⟩
  cases hst : s.steady
  · rw [step_of_startup sig hend hst]
    obtain ⟨fs, hl, hk⟩ := (grows_startupStep h s sig).killed_eq_nil
      (by rintro e (rfl | rfl | ⟨d, q, rfl⟩) <;> rfl)
    exact ⟨fs, hl, by simp [hk]⟩
  · rw [step_of_steady sig hend hst]
    by_cases hx : sig = .exitreq
    · subst hx
      obtain ⟨fs, hl, hk⟩ := exitreq_kills_children (sound_of_reachable hs hend) hend
      exact ⟨fs, hl, by simpa [hend] using hk⟩
    · obtain ⟨fs, hl, hk⟩ := (grows_steadyStep h.kernel s hx).killed_eq_nil
        (by rintro e (rfl | ⟨d, q, rfl⟩) <;> rfl)
      exact ⟨fs, hl, by simp [hk, hx]⟩

/-- Three disks after startup: the exit request kills the three deployed servants. -/
theorem kills_own_children_at_exitreq :
    let h : Host := ⟨Kernel.sequential, fun _ => some ⟨5, 1, 10⟩, true⟩
    let s := run h (inquisitor h ["a", "b", "c"] ⟨5, 1, 10⟩)
      [.chld [(1, .exited 0), (2, .exited 0), (3, .exited 0)]]
    Reachable h ["a", "b", "c"] ⟨5, 1, 10⟩ s ∧
      ∃ fs, (step h s .exitreq).proc.log = s.proc.log ++ fs ∧
        (fs.filterMap Effect.killed).Perm
          (if s.proc.ending = none ∧ s.steady = true ∧ Signal.exitreq = .exitreq then
            s.proc.children else []) :=
  ⟨reachable_run _ _ _ _, kills_only_own_children (reachable_run _ _ _ _) _⟩

end Sbd
