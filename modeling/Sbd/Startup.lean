import Sbd.Quorum
import Sbd.Records

/-!
# Startup validation

Before its steady loop the inquisitor forks one `SERVANT_PREPARE_ONLY` servant per disk and reaps
them all. A servant that exits 0 is *good*: `good_servant` counts it, and
`check_timeout_inconsistent` reads its disk's header — which overwrites the global timeouts —
and compares them with the values before the read. After the last reap the inquisitor returns
`-1` unless `good_servant ≥ servant_count / 2 + 1` and `inconsistent` is clear.

## One flag for all the comparisons

Each comparison stores its result in `inconsistent`, overwriting the one before, and the first
good disk's comparison (against the command line's timeouts) is discarded. So the flag tells
whether the *last two* good disks reaped differ, not whether any two do:
`startup_accepts_inconsistent_timeouts` reaps three disks whose headers read `T`, `T'`, `T'` and
reaches the steady loop.

## What validation does guarantee

`Validation` collects what holds of every reachable state: `make_daemon`, the `SERVANT_DO_FULLJOB`
forks and `watchdog_init` are in the effect log only with a quorum of good servants and the flag
clear, and none of them while the startup loop runs (`IsArming`); the steady loop is entered only
with that validation; and `inquisitor` returns only `-1`, only after every servant is reaped, and
only with fewer good servants than the quorum or the flag set.
With one header on every disk the flag is never set (`uniform_headers_never_inconsistent`), so
the only reason left to return is a missing quorum. The steady loop itself never returns: the
process's endings there are `exit` calls, which `Exits` tracks handler by handler.

## The watchdog waits for validation

Startup appends forks, `make_daemon`, deploys and `watchdog_init` to the log, and no tickle
(`tickles_eq_zero_of_not_steady`); so a tickle in any reachable state means the steady loop was
entered, and validation passed (`tickled_only_after_validation`).
-/

namespace Sbd

/-- `o'` has `o`'s ending, or has called `exit`: it has not returned from `inquisitor`. -/
def Exits (o o' : Proc) : Prop := o'.ending = o.ending ∨ ∃ c, o'.ending = some (.exit c)

namespace Exits

variable {o o₁ o₂ : Proc}

theorem trans (h₁ : Exits o o₁) (h₂ : Exits o₁ o₂) : Exits o o₂ := by
  rcases h₂ with h₂ | h₂
  · rcases h₁ with h₁ | h₁
    · exact .inl (h₂.trans h₁)
    · exact .inr (h₂ ▸ h₁)
  · exact .inr h₂

/-- A process that had not returned still has not. -/
theorem not_returned (h : Exits o o₁) (ho : ∀ rc, o.ending ≠ some (.returned rc)) (rc : Int) :
    o₁.ending ≠ some (.returned rc) := by
  rcases h with h | ⟨c, h⟩ <;> rw [h]
  · exact ho rc
  · simp

end Exits

/-! ## One lemma per handler -/

theorem exits_assignServant (k : Kernel) (o : Proc) (d : String) (j : Job) :
    Exits o (assignServant k o d j).1 := by
  rcases assignServant_cases k o d j with ⟨q, -, -, he⟩ | he <;> rw [he]
  · exact .inl rfl
  · exact .inr ⟨1, rfl⟩

theorem exits_visitServant (k : Kernel) (m : Mission) (o : Proc) (s : Servant) :
    Exits o (visitServant k m o s).1 := by
  unfold visitServant
  split
  · split <;> exact .inl rfl
  · split
    · have := exits_assignServant k o s.devname (.servant .fullJob)
      split <;> simpa [*] using this
    · exact .inl rfl

theorem exits_foreachServants (k : Kernel) (m : Mission) :
    ∀ (o : Proc) (ss : List Servant), Exits o (foreachServants k m o ss).1
  | o, [] => .inl rfl
  | o, s :: ss => by
    simp only [foreachServants]
    split
    · exact exits_visitServant k m o s
    · exact (exits_visitServant k m o s).trans (exits_foreachServants k m _ ss)

theorem exits_forkAll (k : Kernel) (j : Job) :
    ∀ (o : Proc) (ss : List Servant), Exits o (forkAll k j o ss).1
  | o, [] => .inl rfl
  | o, s :: ss => by
    have := exits_assignServant k o s.devname j
    simp only [forkAll]
    split
    · next o' p he => exact (he ▸ this).trans (exits_forkAll k j o' ss)
    · next o' he => simpa [he] using this

theorem exits_restartServantByPid (k : Kernel) (o : Proc) (ss : List Servant) (p : Nat) :
    Exits o (restartServantByPid k o ss p).1 := by
  unfold restartServantByPid
  split
  · exact .inl rfl
  · next r _ =>
    have := exits_assignServant k o r.devname (.servant .fullJob)
    split <;> simpa [*] using this

theorem exits_steadyReap (k : Kernel) (x : Bool) (o : Proc) (ss : List Servant) (p : Nat)
    (st : Status) : Exits o (steadyReap k x o ss p st).1 := by
  unfold steadyReap
  split
  · dsimp only
    split
    · exact .inr ⟨0, rfl⟩
    · exact .inl rfl
  · split
    · exact .inl rfl
    · split
      · exact exits_restartServantByPid k o ss p
      · exact .inl rfl

theorem exits_startupReap (h : Host) (o : Proc) (a : List Servant × Tally) (p : Nat)
    (st : Status) : Exits o (startupReap h o a p st).1 := by
  unfold startupReap
  split
  · exact .inl rfl
  · dsimp only
    split
    · split
      · exact .inr ⟨1, rfl⟩
      · exact .inl rfl
    · exact .inl rfl

theorem exits_waitLoop {α : Type} {body : Proc → α → Nat → Status → Proc × α}
    (hb : ∀ o a pid st, Exits o (body o a pid st).1) (o : Proc) (a : α)
    (l : List (Nat × Status)) : Exits o (waitLoop body o a l).1 :=
  waitLoop_induction (fun o' _ => Exits o o')
    (fun o' a pid st h _ _ => h.trans ((Exits.trans (.inl rfl) (hb (o'.reap pid) a pid st))))
    o a l (.inl rfl)

/-- The steady loop's handlers leave the validation's data alone and only ever `exit`. -/
theorem steadyStep_keeps (k : Kernel) (s : Inquisitor) (sig : Signal) :
    (steadyStep k s sig).servantCount = s.servantCount ∧ (steadyStep k s sig).tally = s.tally ∧
      (steadyStep k s sig).steady = s.steady ∧ Exits s.proc (steadyStep k s sig).proc := by
  cases sig with
  | exitreq =>
    obtain ⟨-, -, he, -⟩ := foreachServants_callback k s.proc s.servants
    exact ⟨rfl, rfl, rfl, .inl he⟩
  | chld l => exact ⟨rfl, rfl, rfl, exits_waitLoop (exits_steadyReap k s.exiting) _ _ l⟩
  | liveness p =>
    simp only [steadyStep]
    split
    · exact ⟨rfl, rfl, rfl, .inl rfl⟩
    · exact ⟨rfl, rfl, rfl, .inl (by split <;> rfl)⟩
  | usr1 =>
    simp only [steadyStep]
    have := exits_foreachServants k .deploy (s.proc.emit .watchdogTickle) s.servants
    split
    · exact ⟨rfl, rfl, rfl, .inl rfl⟩
    · split
      · exact ⟨rfl, rfl, rfl, this⟩
      · exact ⟨rfl, rfl, rfl, this⟩
  | test => exact ⟨rfl, rfl, rfl, .inl rfl⟩
  | usr2 => exact ⟨rfl, rfl, rfl, .inl rfl⟩

/-! ## The validation invariant -/

/-- What the validated branch of startup does, and nothing before it: `make_daemon`, a
`SERVANT_DO_FULLJOB` fork of the deploy, or `watchdog_init`. -/
def IsArming (e : Effect) : Prop := e = .makeDaemon ∨ e = .watchdogInit ∨ IsDeploy e

/-- What startup validation guarantees, for `N` configured disks. -/
structure Validation (N : Nat) (s : Inquisitor) : Prop where
  /-- `servant_count`, the quorum's base, is the configured count. -/
  count : s.servantCount = N
  /-- The steady loop is entered with a quorum of good servants and `inconsistent` clear. -/
  proceeded : s.steady = true → quorum N ≤ s.tally.good ∧ s.tally.inconsistent = false
  /-- `inquisitor` returns only `-1`, after every servant is reaped, for a failed check. -/
  rejected : ∀ rc, s.proc.ending = some (.returned rc) →
    rc = -1 ∧ N ≤ s.tally.finished ∧ (s.tally.good < quorum N ∨ s.tally.inconsistent = true)
  /-- `make_daemon`, the deploy's forks and `watchdog_init` are in the log only once the tally
  they were done on passed validation. -/
  armed : (∃ e ∈ s.proc.log, IsArming e) →
    quorum N ≤ s.tally.good ∧ s.tally.inconsistent = false
  /-- While the startup loop runs, none of them has happened. -/
  quiet : s.steady = false → s.proc.ending = none → ∀ e ∈ s.proc.log, ¬IsArming e

variable {h : Host} {s : Inquisitor} {N : Nat}

theorem validation_startupCheck (hst : s.steady = false) (hN : s.servantCount = N)
    (hret : ∀ rc, s.proc.ending ≠ some (.returned rc)) (hq : ∀ e ∈ s.proc.log, ¬IsArming e) :
    Validation N (startupCheck h s) := by
  subst hN
  have hf := exits_foreachServants h.kernel .deploy (s.proc.emit .makeDaemon) s.servants
  have hnone : ¬∃ e ∈ s.proc.log, IsArming e := fun ⟨e, he, ha⟩ => hq e he ha
  unfold startupCheck
  split
  · exact ⟨rfl, by simp [hst], fun rc he => absurd he (hret rc), (absurd · hnone),
      fun _ _ => hq⟩
  · next hw =>
    split
    · next hv =>
      have hv : quorum s.servantCount ≤ s.tally.good ∧ s.tally.inconsistent = false := by
        simpa using hv
      dsimp only
      split
      · next hend =>
        exact ⟨rfl, by simp [hst], fun rc he => absurd he (hf.not_returned hret rc),
          fun _ => hv, fun _ h' => (Option.not_isSome_iff_eq_none.mpr h' hend).elim⟩
      · refine ⟨rfl, fun _ => hv, fun rc he => absurd he ?_, fun _ => hv, fun h' => by
          simp at h'⟩
        split
        · simpa using hf.not_returned hret rc
        · exact hf.not_returned hret rc
    · next hv =>
      refine ⟨rfl, by simp [hst], fun rc he => ?_, (absurd · hnone), fun _ h' => by simp at h'⟩
      simp only [Proc.halt_ending, Option.some.injEq, Ending.returned.injEq] at he
      simp only [not_or, not_lt, not_and, Bool.not_eq_true'] at hw hv
      refine ⟨he.symm, hw.2, ?_⟩
      dsimp only
      by_cases hg : quorum s.servantCount ≤ s.tally.good
      · exact .inr (by simpa using hv hg)
      · exact .inl (by omega)

theorem validation_step (hv : Validation N s) (sig : Signal) : Validation N (step h s sig) := by
  unfold step
  split
  · exact hv
  · next hend =>
    have hrun : s.proc.ending = none := by simpa using hend
    have hret : ∀ rc, s.proc.ending ≠ some (.returned rc) := fun rc he => by simp [he] at hrun
    split
    · next hst =>
      obtain ⟨hc, ht, hs, he⟩ := steadyStep_keeps h.kernel s sig
      exact ⟨hc ▸ hv.count, fun h' => ht ▸ hv.proceeded (hs ▸ h'),
        fun rc h' => absurd h' (he.not_returned hret rc), fun _ => ht ▸ hv.proceeded hst,
        fun h' => by simp [hs, hst] at h'⟩
    · next hst =>
      simp only [Bool.not_eq_true] at hst
      cases sig with
      | chld l =>
        obtain ⟨fs, hl, hfs⟩ := grows_waitLoop (grows_startupReap h) s.proc (s.servants, s.tally) l
        refine validation_startupCheck hst hv.count
          ((exits_waitLoop (exits_startupReap h) _ _ l).not_returned hret) fun e he => ?_
        rcases List.mem_append.mp (hl ▸ he) with he | he
        · exact hv.quiet hst hrun e he
        · exact (hfs e he).elim
      | _ => exact validation_startupCheck hst hv.count hret (hv.quiet hst hrun)

theorem validation_inquisitor (devs : List String) (t : Timeouts) :
    Validation devs.length (inquisitor h devs t) := by
  obtain ⟨fs, hl, hfs⟩ := grows_forkAll h.kernel (.servant .prepareOnly) Proc.fresh
    (devs.map (⟨·, 0⟩))
  refine validation_startupCheck rfl rfl
    ((exits_forkAll h.kernel _ Proc.fresh _).not_returned (by simp [Proc.fresh])) fun e he => ?_
  have he' : e ∈ (forkAll h.kernel (.servant .prepareOnly) Proc.fresh (devs.map (⟨·, 0⟩))).1.log :=
    he
  rw [hl] at he'
  obtain ⟨d, q, rfl⟩ := hfs e (by simpa [Proc.fresh] using he')
  simp [IsArming, IsDeploy]

/-- **Startup validation.** In every reachable state, `make_daemon`, the deploy's forks and
`watchdog_init` are in the effect log, and the steady loop has been entered, only with a quorum of
servants that exited 0 and the inconsistency flag clear, and none of them is in the log while the
startup loop runs; `inquisitor` has returned only `-1`, after reaping every servant, because the
quorum was missing or the flag was set. -/
theorem validation_of_reachable {devs : List String} {t : Timeouts}
    (hs : Reachable h devs t s) : Validation devs.length s := by
  induction hs with
  | start => exact validation_inquisitor devs t
  | step sig _ ih => exact validation_step ih sig

/-- After startup with three disks, all good. -/
theorem validation_after_startup :
    let h : Host := ⟨Kernel.sequential, fun _ => some ⟨5, 1, 10⟩, true⟩
    let sigs := [Signal.chld [(1, .exited 0), (2, .exited 0), (3, .exited 0)]]
    Reachable h ["a", "b", "c"] ⟨5, 1, 10⟩ (run h (inquisitor h ["a", "b", "c"] ⟨5, 1, 10⟩) sigs) ∧
      Validation ["a", "b", "c"].length (run h (inquisitor h ["a", "b", "c"] ⟨5, 1, 10⟩) sigs) :=
  ⟨reachable_run _ _ _ _, validation_of_reachable (reachable_run _ _ _ _)⟩

/-! ## The watchdog waits for validation -/

/-- Outside the steady loop nothing has tickled the watchdog: startup forks, makes the daemon,
deploys and arms the watchdog, and no more. -/
theorem tickles_eq_zero_of_not_steady {devs : List String} {t : Timeouts}
    (hs : Reachable h devs t s) : s.steady = false → tickles s.proc = 0 := by
  induction hs with
  | start =>
    intro _
    calc tickles (inquisitor h devs t).proc
        = tickles (forkAll h.kernel (.servant .prepareOnly) Proc.fresh (devs.map (⟨·, 0⟩))).1 :=
          (grows_startupCheck h _).tickles_eq (by simp [IsDeploy])
      _ = tickles Proc.fresh := (grows_forkAll h.kernel _ Proc.fresh _).tickles_eq (by simp)
      _ = 0 := rfl
  | step sig _ ih =>
    rename_i s _
    intro hst'
    by_cases hend : s.proc.ending.isSome
    · rw [step_of_ended sig hend] at hst' ⊢
      exact ih hst'
    cases hst : s.steady
    · exact (step_quiet sig (by simp [hst])).2.trans (ih hst)
    · -- the steady loop stays steady
      rw [step_of_steady sig (by simpa using hend) hst, (steadyStep_keeps h.kernel s sig).2.2.1,
        hst] at hst'
      cases hst'

/-- **The watchdog waits for validation.** In every reachable state, if the watchdog has been
tickled then startup validation passed: the steady loop was entered with a quorum of servants
that exited 0 and the inconsistency flag clear. -/
theorem tickled_only_after_validation {devs : List String} {t : Timeouts}
    (hs : Reachable h devs t s) (ht : 0 < tickles s.proc) :
    s.steady = true ∧ quorum devs.length ≤ s.tally.good ∧ s.tally.inconsistent = false := by
  have hv : Validation devs.length s := by
    clear ht
    induction hs with
    | start => exact validation_inquisitor devs t
    | step sig _ ih => exact validation_step ih sig
  cases hst : s.steady
  · have := tickles_eq_zero_of_not_steady hs hst
    omega
  · exact ⟨rfl, hv.proceeded hst⟩

/-- Three good disks, then a quorum of reports. -/
theorem tickled_only_after_validation_after_reports :
    let h : Host := ⟨Kernel.sequential, fun _ => some ⟨5, 1, 10⟩, true⟩
    let s := run h (inquisitor h ["a", "b", "c"] ⟨5, 1, 10⟩)
      [.chld [(1, .exited 0), (2, .exited 0), (3, .exited 0)], .liveness 4, .liveness 5]
    (Reachable h ["a", "b", "c"] ⟨5, 1, 10⟩ s ∧ 0 < tickles s.proc) ∧
      s.steady = true ∧ quorum ["a", "b", "c"].length ≤ s.tally.good ∧
        s.tally.inconsistent = false :=
  ⟨⟨reachable_run _ _ _ _, by decide⟩,
    tickled_only_after_validation (reachable_run _ _ _ _) (by decide)⟩

/-! ## One header on every disk -/

/-- The startup tally under headers that all read `T`: the flag is clear and, once a good disk
is reaped, the global timeouts are `T`. -/
def UniformTally (T : Timeouts) (t : Tally) : Prop :=
  t.inconsistent = false ∧ (0 < t.good → t.timeouts = T)

theorem uniformTally_startupReap {devs : List String} {T : Timeouts}
    (hT : ∀ d ∈ devs, h.header d = some T) {o : Proc} {a : List Servant × Tally}
    (hd : a.1.map Servant.devname = devs) (hu : UniformTally T a.2) (p : Nat) (st : Status) :
    (startupReap h o a p st).2.1.map Servant.devname = devs ∧
      UniformTally T (startupReap h o a p st).2.2 := by
  unfold startupReap
  split
  · exact ⟨hd, hu⟩
  · next r hr =>
    have hdev : r.devname ∈ devs := hd ▸ List.mem_map_of_mem _ (mem_of_lookupServantByPid hr)
    have hc : checkTimeoutInconsistent h a.2.timeouts r.devname =
        some (T, decide (T ≠ a.2.timeouts)) := by
      simp [checkTimeoutInconsistent, headerRead, hT _ hdev]
    have hd' : (cleanupServantByPid a.1 p).map Servant.devname = devs := by
      simp [cleanupServantByPid, hd]
    dsimp only
    split
    · rw [hc]
      refine ⟨hd', ?_, fun _ => rfl⟩
      by_cases hg : a.2.good = 0
      · simp [hg]
      · simp [hu.2 (Nat.pos_of_ne_zero hg)]
    · exact ⟨hd', hu⟩

/-- **One header, no inconsistency.** If every configured disk's header reads the same triple,
the inconsistency flag is never set, and once a servant has exited 0 the global timeouts are that
triple: startup is then refused only for want of a quorum (`Validation.rejected`). -/
theorem uniform_headers_never_inconsistent {devs : List String} {t T : Timeouts}
    (hT : ∀ d ∈ devs, h.header d = some T) (hs : Reachable h devs t s) :
    s.tally.inconsistent = false ∧ (0 < s.tally.good → s.tally.timeouts = T) := by
  induction hs with
  | start => simp [inquisitor]
  | step sig hr ih =>
    rename_i s
    unfold step
    split
    · exact ih
    · next hend =>
      split
      · exact (steadyStep_keeps h.kernel s sig).2.1 ▸ ih
      · cases sig with
        | chld l =>
          have hd := ((sound_of_reachable hr) (by simpa using hend)).devnames
          have hw := waitLoop_induction
            (fun (_ : Proc) (a : List Servant × Tally) =>
              a.1.map Servant.devname = devs ∧ UniformTally T a.2)
            (fun o a pid st ha _ _ => uniformTally_startupReap hT ha.1 ha.2 pid st)
            s.proc (s.servants, s.tally) l ⟨hd, ih⟩
          simp only [startupStep, startupCheck_tally]
          exact hw.2
        | _ => exact (startupCheck_tally h s).symm ▸ ih

/-- Three disks with one header each: the flag stays clear after all three are reaped. -/
theorem uniform_headers_after_startup :
    let h : Host := ⟨Kernel.sequential, fun _ => some ⟨5, 1, 10⟩, true⟩
    let s := run h (inquisitor h ["a", "b", "c"] ⟨7, 1, 10⟩)
      [.chld [(1, .exited 0), (2, .exited 0), (3, .exited 0)]]
    (∀ d ∈ ["a", "b", "c"], h.header d = some ⟨5, 1, 10⟩) ∧
      Reachable h ["a", "b", "c"] ⟨7, 1, 10⟩ s ∧
      s.tally.inconsistent = false ∧ (0 < s.tally.good → s.tally.timeouts = ⟨5, 1, 10⟩) :=
  ⟨by decide, reachable_run _ _ _ _,
    uniform_headers_never_inconsistent (by decide) (reachable_run _ _ _ _)⟩

/-- Three disks, all servants exit 0, but the header of `a` differs from those of `b` and `c`:
the comparison for `b` sets `inconsistent`, the one for `c` clears it, and the inquisitor makes
the daemon and enters its steady loop. -/
theorem startup_accepts_inconsistent_timeouts :
    let h : Host := ⟨Kernel.sequential,
      fun d => if d = "a" then some ⟨5, 1, 10⟩ else some ⟨7, 1, 10⟩, true⟩
    let s := run h (inquisitor h ["a", "b", "c"] ⟨5, 1, 10⟩)
      [.chld [(1, .exited 0), (2, .exited 0), (3, .exited 0)]]
    h.header "a" ≠ h.header "b" ∧ s.steady = true ∧ Effect.makeDaemon ∈ s.proc.log := by
  decide

end Sbd
