import Mathlib.Data.List.Dedup
import Sbd.Exiting

/-!
# Liveness, the report array and the watchdog

The safety argument of the design: the watchdog is tickled only on behalf of a majority. Here
the faithful handlers of `Sbd.Inquisitor` are related to that argument.

* `reports_packed`: in every reachable state the report array has `expect_report` entries,
  distinct nonzero pids followed by zeros — the shape `Sbd.Reports` works with.
* `liveness_tickle_needs_quorum`: whenever a `SIG_LIVENESS` makes the inquisitor tickle, at
  least `N / 2 + 1` distinct pids have sent `SIG_LIVENESS` since the previous tickle. The count
  is over pids, not over servant records: a servant respawned by `restart_servant_by_pid`
  reports under a new pid, and `respawned_servant_counts_twice` shows a quorum of three disks
  made up by one device's two servants.
* With one or two disks no `SIG_LIVENESS` ever tickles (`liveness_tickle_needs_three_disks`).

## Tickles as the reset points

"Since the previous tickle" is read off the run: `heardSince` follows the run, collects the pid of
each `SIG_LIVENESS` the steady loop's handler takes (the startup loop and an exiting inquisitor
pass the signal over), and restarts its list at every step that tickles. Every tickle of the code comes with a reset of the array
(`SIGUSR1` tickles before and after redeploying and clears in between), so the heard pids are
the array's contents or a superset of them.
-/

namespace Sbd

/-- Watchdog tickles so far. -/
def tickles (o : Proc) : Nat := o.log.count .watchdogTickle

/-- The pid a signal reports liveness for, if it is a `SIG_LIVENESS`. -/
def Signal.livenessPids : Signal → List Nat
  | .liveness p => [p]
  | _ => []

/-- The pid of `sig` if it is a `SIG_LIVENESS` that the steady loop's handler takes in the state
`s`: the process runs, has passed validation and is not exiting. The startup loop and an exiting
inquisitor pass the signal over. -/
def Signal.takenPids (s : Inquisitor) (sig : Signal) : List Nat :=
  if s.proc.ending = none ∧ s.steady = true ∧ s.exiting = false then sig.livenessPids else []

/-- Along the run `sigs` from `s`, the pids of the `SIG_LIVENESS` signals the steady loop's handler
took since the last watchdog tickle, oldest first, continuing `acc`. -/
def heardSince (h : Host) : Inquisitor → List Nat → List Signal → List Nat
  | _, acc, [] => acc
  | s, acc, sig :: sigs =>
    heardSince h (step h s sig)
      (if tickles s.proc < tickles (step h s sig).proc then [] else acc ++ sig.takenPids s) sigs

theorem Grows.tickles_eq {p : Effect → Prop} {o o' : Proc} (h : Grows p o o')
    (hp : ¬p .watchdogTickle) : tickles o' = tickles o :=
  h.count_eq hp

/-! ## What a step does to the array and to the tickle count -/

variable {h : Host} {s : Inquisitor}

/-- Outside the steady loop's `SIG_LIVENESS` and `SIGUSR1` handlers, a signal neither touches the
report array nor tickles. -/
theorem step_quiet (sig : Signal)
    (hq : ¬(s.proc.ending = none ∧ s.steady = true ∧ s.exiting = false ∧
      ((∃ p, sig = .liveness p) ∨ sig = .usr1))) :
    (step h s sig).reports = s.reports ∧ tickles (step h s sig).proc = tickles s.proc := by
  by_cases hend : s.proc.ending.isSome
  · simp [step_of_ended sig hend]
  have hrun : s.proc.ending = none := by simpa using hend
  cases hs : s.steady
  · -- the startup loop: its reaps and its loop test
    rw [step_of_startup sig hrun hs]
    have hc : ∀ s', (startupCheck h s').reports = s'.reports ∧
        tickles (startupCheck h s').proc = tickles s'.proc := fun s' =>
      ⟨startupCheck_reports h s', (grows_startupCheck h s').tickles_eq (by simp [IsDeploy])⟩
    cases sig with
    | chld l =>
      exact ⟨(hc _).1, (hc _).2.trans ((grows_waitLoop (grows_startupReap h) s.proc
        (s.servants, s.tally) l).tickles_eq (by simp))⟩
    | _ => exact hc s
  cases hx : s.exiting
  · rw [step_of_steady sig hrun hs]
    cases sig with
    | exitreq => exact ⟨rfl, (grows_exitreq h.kernel s).tickles_eq (by simp)⟩
    | chld l =>
      exact ⟨rfl, (grows_waitLoop (grows_steadyReap h.kernel s.exiting) s.proc s.servants
        l).tickles_eq (by simp [IsDeploy])⟩
    | liveness p => exact absurd ⟨hrun, hs, hx, .inl ⟨p, rfl⟩⟩ hq
    | test => exact ⟨rfl, rfl⟩
    | usr1 => exact absurd ⟨hrun, hs, hx, .inr rfl⟩ hq
    | usr2 => exact ⟨rfl, rfl⟩
  · -- exiting: only kills and the watchdog's close
    obtain ⟨-, -, hg, -⟩ := step_exiting (h := h) hs hx hrun sig
    refine ⟨?_, hg.tickles_eq (by simp)⟩
    rw [step_of_steady sig hrun hs]
    cases sig <;> simp [steadyStep, hx]

/-- The steady loop's `SIG_LIVENESS` handler, when not exiting. -/
theorem step_liveness (hrun : s.proc.ending = none) (hs : s.steady = true)
    (hx : s.exiting = false) (p : Nat) :
    step h s (.liveness p) =
      { s with
        reports := (s.reports.liveness p).1
        proc := if (s.reports.liveness p).2 then s.proc.emit .watchdogTickle else s.proc } := by
  simp [step, hrun, hs, steadyStep, hx]

theorem tickles_step_liveness (hrun : s.proc.ending = none) (hs : s.steady = true)
    (hx : s.exiting = false) (p : Nat) :
    tickles s.proc < tickles (step h s (.liveness p)).proc ↔ (s.reports.liveness p).2 = true := by
  rw [step_liveness hrun hs hx]
  split <;> simp_all [tickles]

/-- `SIGUSR1` tickles; unless redeploying ends the process it tickles twice, before and after
redeploying, and clears the array. -/
theorem step_usr1 (hrun : s.proc.ending = none) (hs : s.steady = true) (hx : s.exiting = false) :
    tickles s.proc < tickles (step h s .usr1).proc ∧
      ((step h s .usr1).reports = s.reports.clear ∧
          tickles (step h s .usr1).proc = tickles s.proc + 2 ∨
        (step h s .usr1).reports = s.reports ∧ (step h s .usr1).proc.ending.isSome) := by
  have hg := (grows_foreachServants h.kernel .deploy (s.proc.emit .watchdogTickle)
    s.servants).tickles_eq (by simp [IsDeploy])
  have h1 : tickles (s.proc.emit .watchdogTickle) = tickles s.proc + 1 := by simp [tickles]
  rw [step_of_steady .usr1 hrun hs]
  simp only [steadyStep, hx, Bool.false_eq_true, if_false]
  split
  · exact ⟨by simp only at hg ⊢; omega, .inr ⟨rfl, ‹_›⟩⟩
  · refine ⟨?_, .inl ⟨rfl, ?_⟩⟩ <;>
      simp only [tickles, Proc.emit_log, List.count_append] at hg h1 ⊢ <;> omega

/-! ## The array's shape -/

/-- The array's shape, from the start and through every step. -/
theorem packed_of_reachable {devs : List String} {t : Timeouts} (hs : Reachable h devs t s) :
    s.reports.entries.length = devs.length ∧ Packed s.reports.entries := by
  induction hs with
  | start =>
    simp only [inquisitor, startupCheck_reports, List.length_replicate, true_and]
    exact packed_replicate _
  | step sig _ ih =>
    rename_i s _
    by_cases hq : s.proc.ending = none ∧ s.steady = true ∧ s.exiting = false ∧
        ((∃ p, sig = .liveness p) ∨ sig = .usr1)
    · obtain ⟨hrun, hst, hx, ⟨p, rfl⟩ | rfl⟩ := hq
      · rw [step_liveness hrun hst hx]
        exact ⟨by simpa using ih.1, Reports.liveness_packed p ih.2⟩
      · rcases (step_usr1 (h := h) hrun hst hx).2 with ⟨he, -⟩ | ⟨he, -⟩ <;> rw [he]
        · exact ⟨by simpa using ih.1, by simpa using packed_replicate _⟩
        · exact ih
    · rw [(step_quiet sig hq).1]
      exact ih

/-- **The report array keeps its shape.** In every reachable state the array has one entry per
configured disk and holds distinct nonzero pids followed by zeros only, so a pid already
present is never stored a second time. -/
theorem reports_packed {devs : List String} {t : Timeouts} (hs : Reachable h devs t s) :
    s.reports.entries.length = devs.length ∧ Packed s.reports.entries :=
  packed_of_reachable hs

/-- Three disks, after startup and one report. -/
theorem reports_packed_after_report :
    let h : Host := ⟨Kernel.sequential, fun _ => some ⟨5, 1, 10⟩, true⟩
    let sigs := [Signal.chld [(1, .exited 0), (2, .exited 0), (3, .exited 0)], .liveness 4]
    Reachable h ["a", "b", "c"] ⟨5, 1, 10⟩ (run h (inquisitor h ["a", "b", "c"] ⟨5, 1, 10⟩) sigs) ∧
      (run h (inquisitor h ["a", "b", "c"] ⟨5, 1, 10⟩) sigs).reports.entries.length =
        ["a", "b", "c"].length ∧
      Packed (run h (inquisitor h ["a", "b", "c"] ⟨5, 1, 10⟩) sigs).reports.entries :=
  ⟨reachable_run _ _ _ _, reports_packed (reachable_run _ _ _ _)⟩

/-! ## Pids heard since the last tickle -/

/-- The array's pids are distinct, nonzero and all among `acc`. -/
def HeardIn (acc : List Nat) (r : Reports) : Prop :=
  ∃ a n, r.entries = pack a n ∧ 0 ∉ a ∧ a.Nodup ∧ a ⊆ acc

/-- While the process runs, the array's pids were all heard in `acc`. -/
def Heard (acc : List Nat) (s : Inquisitor) : Prop :=
  s.proc.ending = none → HeardIn acc s.reports

theorem HeardIn.mono {acc acc' : List Nat} {r : Reports} (hr : HeardIn acc r)
    (hsub : acc ⊆ acc') : HeardIn acc' r :=
  let ⟨a, n, he, h0, hd, ha⟩ := hr
  ⟨a, n, he, h0, hd, ha.trans hsub⟩

theorem heardIn_clear (acc : List Nat) (r : Reports) : HeardIn acc r.clear :=
  ⟨[], r.entries.length, by simp [pack], by simp, .nil, by simp⟩

/-- One `SIG_LIVENESS` on heard contents: without a tickle `p` joins the heard pids, and a tickle
needs `p` and the heard pids to number a majority of the array's length. -/
theorem HeardIn.liveness {acc : List Nat} {r : Reports} (hr : HeardIn acc r) (p : Nat) :
    HeardIn (if (r.liveness p).2 then [] else acc ++ [p]) (r.liveness p).1 ∧
      ((r.liveness p).2 = true → quorum r.entries.length ≤ (acc ++ [p]).dedup.length) := by
  obtain ⟨entries, b⟩ := r
  obtain ⟨a, n, rfl, h0, hd, ha⟩ := hr
  rcases @Reports.liveness_cases a n b p h0 with ⟨hf, he⟩ | ⟨hp, hp0, -, hf, he⟩ |
    ⟨hp, hp0, -, hq, ht, he⟩
  · simp only [hf, Bool.false_eq_true, if_false, false_implies, and_true]
    exact ⟨a, n, he, h0, hd, ha.trans (List.subset_append_left _ _)⟩
  · simp only [hf, Bool.false_eq_true, if_false, false_implies, and_true]
    refine ⟨a ++ [p], n - 1, he, by simp [h0, Ne.symm hp0], ?_,
      List.append_subset.mpr ⟨List.subset_append_of_subset_left _ ha, by simp⟩⟩
    exact hd.append (List.nodup_singleton p) (List.disjoint_singleton.mpr hp)
  · simp only [ht, if_true, true_implies]
    refine ⟨⟨[], _, he, by simp, .nil, by simp⟩, ?_⟩
    have hsub : a ++ [p] ⊆ (acc ++ [p]).dedup := fun x hx => List.mem_dedup.mpr
      (List.append_subset.mpr ⟨List.subset_append_of_subset_left _ ha, by simp⟩ hx)
    calc quorum (pack a n).length = quorum (a.length + n) := by rw [length_pack]
      _ ≤ (a ++ [p]).length := by simpa using hq
      _ ≤ (acc ++ [p]).dedup.length :=
        (List.subperm_of_subset (hd.append (List.nodup_singleton p)
          (List.disjoint_singleton.mpr hp)) hsub).length_le

theorem running_of_step (sig : Signal) (h' : (step h s sig).proc.ending = none) :
    s.proc.ending = none := by
  cases hs : s.proc.ending with
  | none => rfl
  | some e => rw [step_of_ended sig (by simp [hs]), hs] at h'; cases h'

/-- One step keeps the heard pids a superset of the array's, `heardSince`'s way. -/
theorem heard_step {acc : List Nat} (hh : Heard acc s) (sig : Signal) :
    Heard (if tickles s.proc < tickles (step h s sig).proc then [] else acc ++ sig.takenPids s)
      (step h s sig) := by
  intro hrun'
  have hrun := running_of_step sig hrun'
  by_cases hq : s.proc.ending = none ∧ s.steady = true ∧ s.exiting = false ∧
      ((∃ p, sig = .liveness p) ∨ sig = .usr1)
  · obtain ⟨-, hst, hx, ⟨p, rfl⟩ | rfl⟩ := hq
    · simp only [tickles_step_liveness hrun hst hx, Signal.takenPids, hrun, hst, hx, and_self,
        if_true, Signal.livenessPids]
      rw [step_liveness hrun hst hx]
      exact ((hh hrun).liveness p).1
    · obtain ⟨hlt, ⟨hr, -⟩ | ⟨-, hend⟩⟩ := step_usr1 (h := h) hrun hst hx
      · simp only [hlt, if_true, hr]
        exact heardIn_clear _ _
      · simp only [hrun', Option.isSome_none, Bool.false_eq_true] at hend
  · obtain ⟨hr, ht⟩ := step_quiet (h := h) sig hq
    simp only [ht, lt_irrefl, if_false, hr]
    exact (hh hrun).mono (List.subset_append_left _ _)

theorem heard_run (sigs : List Signal) :
    ∀ {s : Inquisitor} {acc : List Nat}, Heard acc s →
      Heard (heardSince h s acc sigs) (run h s sigs) := by
  induction sigs with
  | nil => exact id
  | cons sig sigs ih => exact fun hh => ih (heard_step hh sig)

theorem heard_inquisitor (devs : List String) (t : Timeouts) : Heard [] (inquisitor h devs t) :=
  fun _ => ⟨[], devs.length, by simp [inquisitor, pack], by simp, .nil, by simp⟩

/-! ## Tickles need a majority -/

/-- **A tickle needs a majority of pids.** Along every run from the start, a `SIG_LIVENESS` from
`p` tickles the watchdog only if `p` and the pids heard since the last tickle are at least
`N / 2 + 1` distinct pids, `N` the configured disk count. -/
theorem liveness_tickle_needs_quorum {devs : List String} {t : Timeouts} (sigs : List Signal)
    (p : Nat) (htick : tickles (run h (inquisitor h devs t) sigs).proc <
      tickles (step h (run h (inquisitor h devs t) sigs) (.liveness p)).proc) :
    quorum devs.length ≤ (heardSince h (inquisitor h devs t) [] sigs ++ [p]).dedup.length := by
  have hq : (run h (inquisitor h devs t) sigs).proc.ending = none ∧
      (run h (inquisitor h devs t) sigs).steady = true ∧
      (run h (inquisitor h devs t) sigs).exiting = false ∧
      ((∃ q, Signal.liveness p = .liveness q) ∨ Signal.liveness p = .usr1) := by
    by_contra hq
    exact absurd (step_quiet _ hq).2 htick.ne'
  obtain ⟨hrun, hst, hx, -⟩ := hq
  rw [← (packed_of_reachable (reachable_run h devs t sigs)).1]
  exact ((heard_run sigs (heard_inquisitor devs t) hrun).liveness p).2
    ((tickles_step_liveness hrun hst hx p).mp htick)


/-- Three disks: after startup the second distinct report tickles. -/
theorem liveness_tickle_needs_quorum_at_second_report :
    let h : Host := ⟨Kernel.sequential, fun _ => some ⟨5, 1, 10⟩, true⟩
    let devs := ["a", "b", "c"]
    let sigs := [Signal.chld [(1, .exited 0), (2, .exited 0), (3, .exited 0)], .liveness 4]
    tickles (run h (inquisitor h devs ⟨5, 1, 10⟩) sigs).proc <
        tickles (step h (run h (inquisitor h devs ⟨5, 1, 10⟩) sigs) (.liveness 5)).proc ∧
      quorum devs.length ≤ (heardSince h (inquisitor h devs ⟨5, 1, 10⟩) [] sigs ++ [5]).dedup.length :=
  ⟨by decide, liveness_tickle_needs_quorum _ _ (by decide)⟩

/-- The count is over pids, not devices. Three disks: device `a`'s servant (pid 4) reports and
crashes, `restart_servant_by_pid` forks pid 7 for `a`, and 7's report tickles. No tickle came
before, and 4 is the only other pid heard, so one device made up the quorum of two. -/
theorem respawned_servant_counts_twice :
    let h : Host := ⟨Kernel.sequential, fun _ => some ⟨5, 1, 10⟩, true⟩
    let s₀ := inquisitor h ["a", "b", "c"] ⟨5, 1, 10⟩
    let sigs := [Signal.chld [(1, .exited 0), (2, .exited 0), (3, .exited 0)], .liveness 4,
      .chld [(4, .signaled 11)]]
    tickles (run h s₀ sigs).proc = 0 ∧ tickles (step h (run h s₀ sigs) (.liveness 7)).proc = 1 ∧
      heardSince h s₀ [] sigs = [4] ∧ quorum 3 = 2 ∧
      Effect.fork "a" 4 (.servant .fullJob) ∈ (run h s₀ sigs).proc.log ∧
      Effect.fork "a" 7 (.servant .fullJob) ∈ (run h s₀ sigs).proc.log := by
  decide

/-! ## One or two disks -/

/-- **Below three disks `SIG_LIVENESS` never tickles.** The array fills when the quorum is
reached, and the second scan, which finds no free entry, never reaches its threshold test. -/
theorem liveness_tickle_needs_three_disks {devs : List String} {t : Timeouts}
    (hs : Reachable h devs t s) (hN : devs.length ≤ 2) (p : Nat) :
    tickles (step h s (.liveness p)).proc = tickles s.proc := by
  by_cases hq : s.proc.ending = none ∧ s.steady = true ∧ s.exiting = false ∧
      ((∃ q, Signal.liveness p = .liveness q) ∨ Signal.liveness p = .usr1)
  · obtain ⟨hrun, hst, hx, -⟩ := hq
    obtain ⟨hlen, hp⟩ := packed_of_reachable hs
    have hnt : (s.reports.liveness p).2 = false := by
      by_contra ht
      have := Reports.three_le_of_liveness hp (by simpa using ht)
      omega
    rw [step_liveness hrun hst hx, hnt]
    rfl
  · exact (step_quiet _ hq).2

/-- Two disks after startup: the second servant's report after the first does not tickle. -/
theorem second_of_two_reports_no_tickle :
    let h : Host := ⟨Kernel.sequential, fun _ => some ⟨5, 1, 10⟩, true⟩
    let s := run h (inquisitor h ["a", "b"] ⟨5, 1, 10⟩)
      [.chld [(1, .exited 0), (2, .exited 0)], .liveness 3]
    Reachable h ["a", "b"] ⟨5, 1, 10⟩ s ∧ ["a", "b"].length ≤ 2 ∧
      tickles (step h s (.liveness 4)).proc = tickles s.proc :=
  ⟨reachable_run _ _ _ _, by decide,
    liveness_tickle_needs_three_disks (reachable_run _ _ _ _) (by decide) 4⟩

/-- Two disks, both servants report: the set-based reference tickles at the second report
(`heardLiveness`), the code never does. -/
theorem two_disks_never_tickle :
    let h : Host := ⟨Kernel.sequential, fun _ => some ⟨5, 1, 10⟩, true⟩
    let s := run h (inquisitor h ["a", "b"] ⟨5, 1, 10⟩) [.chld [(1, .exited 0), (2, .exited 0)]]
    s.steady = true ∧ s.exiting = false ∧ s.servants.map Servant.pid = [3, 4] ∧
      Reports.heardLiveness 2 [] 3 = ([3], false) ∧ Reports.heardLiveness 2 [3] 4 = ([], true) ∧
      tickles (run h s [.liveness 3, .liveness 4]).proc = tickles s.proc := by
  decide

end Sbd
