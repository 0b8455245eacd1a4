import Sbd.Quorum

/-!
# The report array refines the quorum rule

The quorum rule, as the design states it, keeps a set: the distinct senders of `SIG_LIVENESS`
heard since the last tickle. A new sender that brings the set to `N / 2 + 1` tickles the
watchdog and empties it; `SIGUSR1` empties it too. `quorumRule` is that rule as a step function
over the set and the number of tickles.

## The abstraction

`Reports.heard` reads the set off the array: the entries before its first free one. With three
disks or more the array stays *below the quorum* (`Below`): a quorum is reached while a free entry
is still left, where the second scan sees it, and the array is cleared at once. So from a steady
state each handling is one step of the rule (`quorumRule_step`), and every run of the steady loop
up to a `SIG_EXITREQ` — `SIGCHLD`s, `SIG_TEST`s and `SIGUSR1`s interleaved — agrees with the rule
on the set and on the tickle count (`reports_refine_quorum_rule`). With one or two disks the
array fills at the quorum's size and no `SIG_LIVENESS` tickles: see
`liveness_tickle_needs_three_disks`.

## A majority keeps the node alive

Along the rule the tickle count never drops, and until it rises every sender heard stays in the
set (`quorumRule_foldl_cases`). The array never holds a quorum, so once `N / 2 + 1` distinct
pids have reported the watchdog has been tickled (`quorum_of_reports_tickles`) — the converse of
`liveness_tickle_needs_quorum`.
-/

namespace Sbd

/-- The senders heard since the last tickle: the entries before the array's first free one. -/
def Reports.heard (r : Reports) : List Nat := r.entries.takeWhile (· ≠ 0)

/-- The quorum rule for `n` configured disks, on the heard set and the tickle count. A new sender
tickles once when it brings the set to the quorum, which empties it; `SIGUSR1` tickles before and
after redeploying and empties the set; no other signal touches either. -/
def quorumRule (n : Nat) : List Nat × Nat → Signal → List Nat × Nat
  | (heard, k), .liveness p =>
    ((Reports.heardLiveness n heard p).1, if (Reports.heardLiveness n heard p).2 then k + 1 else k)
  | (_, k), .usr1 => ([], k + 2)
  | x, _ => x

/-- The signals the rule speaks of: all but `SIG_EXITREQ`, and a `SIG_LIVENESS` from a process,
whose `si_pid` is never `0`. -/
def Signal.reporting : Signal → Bool
  | .exitreq => false
  | .liveness p => p != 0
  | _ => true

/-! ## The array below the quorum -/

/-- The array of `N` entries below the quorum: distinct nonzero heard senders, fewer than a
quorum of them, and free entries to the end. -/
structure Below (N : Nat) (r : Reports) : Prop where
  /-- No heard sender is `0`, the free mark. -/
  zero_not_mem : 0 ∉ r.heard
  /-- Each sender is heard once. -/
  nodup : r.heard.Nodup
  /-- Fewer than a quorum are heard: the sender that makes a quorum clears the array. -/
  lt_quorum : r.heard.length < quorum N
  /-- The rest of the `N` entries are free. -/
  entries_eq : r.entries = pack r.heard (N - r.heard.length)

theorem heard_of_entries {r : Reports} {a : List Nat} {n : Nat} (he : r.entries = pack a n)
    (h0 : 0 ∉ a) : r.heard = a := by
  rw [Reports.heard, he]
  clear he
  induction a with
  | nil => cases n <;> simp [pack, List.replicate_succ]
  | cons x a ih =>
    have hx : x ≠ 0 := fun h => h0 (h ▸ List.mem_cons_self _ _)
    simpa [pack, hx] using ih (fun h => h0 (List.mem_cons_of_mem _ h))

theorem below_of_pack {N : Nat} {r : Reports} {a : List Nat} (h0 : 0 ∉ a) (hnd : a.Nodup)
    (hlt : a.length < quorum N) (he : r.entries = pack a (N - a.length)) : Below N r := by
  obtain rfl := heard_of_entries he h0
  exact ⟨h0, hnd, hlt, he⟩

/-- The rule keeps its set distinct, nonzero and below the quorum. -/
theorem heardLiveness_below {N p : Nat} {a : List Nat} (h0 : 0 ∉ a) (hnd : a.Nodup)
    (hlt : a.length < quorum N) (hp0 : p ≠ 0) :
    0 ∉ (Reports.heardLiveness N a p).1 ∧ (Reports.heardLiveness N a p).1.Nodup ∧
      (Reports.heardLiveness N a p).1.length < quorum N := by
  unfold Reports.heardLiveness
  split_ifs with hp hq
  · exact ⟨h0, hnd, hlt⟩
  · exact ⟨List.not_mem_nil _, List.nodup_nil, by simp [quorum]⟩
  · refine ⟨by simp [h0, hp0.symm], hnd.append (List.nodup_singleton p) ?_, ?_⟩
    · exact List.disjoint_singleton.mpr hp
    · simp only [List.length_append, List.length_singleton]
      omega

/-- An array of free entries only is below the quorum and holds no sender. -/
theorem below_replicate {N : Nat} {r : Reports} (he : r.entries = List.replicate N 0) :
    Below N r ∧ r.heard = [] := by
  have he' : r.entries = pack [] (N - ([] : List Nat).length) := by simp [pack, he]
  exact ⟨below_of_pack (List.not_mem_nil _) List.nodup_nil (by simp [quorum]) he',
    heard_of_entries he' (List.not_mem_nil _)⟩

/-- A cleared array holds no sender. -/
theorem below_clear {N : Nat} {r : Reports} (hb : Below N r) :
    Below N r.clear ∧ r.clear.heard = [] := by
  refine below_replicate ?_
  have := hb.lt_quorum
  rw [Reports.clear_entries, hb.entries_eq, length_pack]
  simp only [quorum] at this
  congr 1
  omega

/-- From three disks up, a `SIG_LIVENESS` keeps the array below the quorum, and from a nonzero
pid it is one step of the rule on the heard set. -/
theorem below_liveness {N : Nat} {r : Reports} (hN : 3 ≤ N) (hb : Below N r) (p : Nat) :
    Below N (r.liveness p).1 ∧ (p ≠ 0 →
      (r.liveness p).1.heard = (Reports.heardLiveness N r.heard p).1 ∧
        (r.liveness p).2 = (Reports.heardLiveness N r.heard p).2) := by
  obtain ⟨e, b⟩ := r
  obtain ⟨h0, hnd, hlt, he⟩ := hb
  generalize Reports.heard ⟨e, b⟩ = a at h0 hnd hlt he ⊢
  subst he
  by_cases hp0 : p = 0
  · exact ⟨below_of_pack h0 hnd hlt (Reports.liveness_of_not_fresh b h0 (.inl hp0)).2,
      fun h => absurd hp0 h⟩
  · obtain ⟨ht, hu⟩ := Reports.liveness_refines b hN h0 hlt hp0
    obtain ⟨h0', hnd', hlt'⟩ := heardLiveness_below h0 hnd hlt hp0
    exact ⟨below_of_pack h0' hnd' hlt' hu, fun _ => ⟨heard_of_entries hu h0', ht⟩⟩

/-! ## Along the steady loop -/

variable {h : Host} {s : Inquisitor}

/-- Only `SIG_EXITREQ` changes the steady loop's flags. -/
theorem step_flags (hrun : s.proc.ending = none) (hs : s.steady = true) {sig : Signal}
    (hsig : sig ≠ .exitreq) :
    (step h s sig).steady = true ∧ (step h s sig).exiting = s.exiting := by
  rw [step_of_steady sig hrun hs]
  cases sig with
  | exitreq => exact absurd rfl hsig
  | liveness p | usr1 =>
    simp only [steadyStep]
    split_ifs <;> exact ⟨hs, rfl⟩
  | _ => exact ⟨hs, rfl⟩

/-- **One handling is one step of the rule.** From a steady state not exiting, with the array
below the quorum of `N ≥ 3` disks, a signal the rule speaks of either ends the process or is a
step of the rule on the heard set and the tickle count; the loop stays steady, not exiting,
and below the quorum. -/
theorem quorumRule_step {N : Nat} (hN : 3 ≤ N) (hb : Below N s.reports) (hst : s.steady = true)
    (hx : s.exiting = false) (sig : Signal) (hsig : sig.reporting = true) :
    (step h s sig).proc.ending.isSome ∨
      ((step h s sig).steady = true ∧ (step h s sig).exiting = false ∧
        Below N (step h s sig).reports) ∧
      ((step h s sig).reports.heard, tickles (step h s sig).proc) =
        quorumRule N (s.reports.heard, tickles s.proc) sig := by
  by_cases hend : s.proc.ending.isSome
  · exact .inl (by rw [step_of_ended sig hend]; exact hend)
  have hrun : s.proc.ending = none := by simpa using hend
  have hex : sig ≠ .exitreq := by
    rintro rfl
    cases hsig
  obtain ⟨hst', hx'⟩ := step_flags (h := h) hrun hst hex
  rw [hx] at hx'
  have quiet := step_quiet (h := h) (s := s) sig
  cases sig with
  | liveness p =>
    obtain ⟨hb', hh⟩ := below_liveness hN hb p
    obtain ⟨hh, ht⟩ := hh (by simpa [Signal.reporting] using hsig)
    refine .inr ⟨⟨hst', hx', ?_⟩, ?_⟩ <;> rw [step_liveness hrun hst hx]
    · exact hb'
    · simp only [quorumRule, hh, ← ht]
      split <;> simp [tickles]
  | usr1 =>
    obtain ⟨-, ⟨hr, ht⟩ | ⟨-, he⟩⟩ := step_usr1 (h := h) hrun hst hx
    · obtain ⟨hc, hh⟩ := below_clear hb
      exact .inr ⟨⟨hst', hx', hr ▸ hc⟩, by simp [quorumRule, hr, hh, ht]⟩
    · exact .inl he
  | _ =>
    obtain ⟨hr, ht⟩ := quiet (by simp)
    exact .inr ⟨⟨hst', hx', hr ▸ hb⟩, by simp [quorumRule, hr, ht]⟩

/-- A run of the steady loop from a state below the quorum follows the rule, unless the process
ends. -/
theorem quorumRule_run {N : Nat} (hN : 3 ≤ N) :
    ∀ (sigs : List Signal) {s : Inquisitor}, Below N s.reports → s.steady = true →
      s.exiting = false → (∀ sig ∈ sigs, sig.reporting = true) →
      (run h s sigs).proc.ending.isSome ∨
        ((run h s sigs).reports.heard, tickles (run h s sigs).proc) =
          sigs.foldl (quorumRule N) (s.reports.heard, tickles s.proc)
  | [], _, _, _, _, _ => .inr rfl
  | sig :: sigs, s, hb, hst, hx, hsig => by
    rw [run_cons]
    rcases quorumRule_step (h := h) hN hb hst hx sig (hsig _ (List.mem_cons_self _ _)) with
      hend | ⟨⟨hst', hx', hb'⟩, he⟩
    · exact .inl (by rw [run_of_ended sigs hend]; exact hend)
    · rw [List.foldl_cons, ← he]
      exact quorumRule_run hN sigs hb' hst' hx' fun x hx => hsig x (List.mem_cons_of_mem _ hx)

/-- From three disks up, every reachable state has its array below the quorum. -/
theorem below_of_reachable {devs : List String} {t : Timeouts} (hs : Reachable h devs t s)
    (hN : 3 ≤ devs.length) : Below devs.length s.reports := by
  induction hs with
  | start => exact (below_replicate (by simp [inquisitor])).1
  | step sig _ ih =>
    rename_i s _
    by_cases hq : s.proc.ending = none ∧ s.steady = true ∧ s.exiting = false ∧
        ((∃ p, sig = .liveness p) ∨ sig = .usr1)
    · obtain ⟨hrun, hst, hx, ⟨p, rfl⟩ | rfl⟩ := hq
      · rw [step_liveness hrun hst hx]
        exact (below_liveness hN ih p).1
      · rcases (step_usr1 (h := h) hrun hst hx).2 with ⟨he, -⟩ | ⟨he, -⟩ <;> rw [he]
        · exact (below_clear ih).1
        · exact ih
    · exact (step_quiet sig hq).1 ▸ ih

/-- **The report array refines the quorum rule.** With three configured disks or more, along
every run of the steady loop from a reachable state — any `SIG_LIVENESS`es from processes,
`SIGCHLD`s, `SIG_TEST`s and `SIGUSR1`s, up to a `SIG_EXITREQ` — the senders the array holds and
the watchdog tickles are those of the quorum rule, unless the process has ended. -/
theorem reports_refine_quorum_rule {devs : List String} {t : Timeouts}
    (hs : Reachable h devs t s) (hN : 3 ≤ devs.length) (hst : s.steady = true)
    (hx : s.exiting = false) (sigs : List Signal) (hsig : ∀ sig ∈ sigs, sig.reporting = true) :
    (run h s sigs).proc.ending.isSome ∨
      ((run h s sigs).reports.heard, tickles (run h s sigs).proc) =
        sigs.foldl (quorumRule devs.length) (s.reports.heard, tickles s.proc) :=
  quorumRule_run hN sigs (below_of_reachable hs hN) hst hx hsig

/-! ## A quorum of reports tickles -/

/-- One step of the rule tickles, or keeps the heard senders and adds the new one. -/
theorem quorumRule_cases (N : Nat) (x : List Nat × Nat) (sig : Signal) :
    x.2 < (quorumRule N x sig).2 ∨ ((quorumRule N x sig).2 = x.2 ∧
      x.1 ⊆ (quorumRule N x sig).1 ∧ sig.livenessPids ⊆ (quorumRule N x sig).1) := by
  obtain ⟨heard, k⟩ := x
  cases sig with
  | liveness p =>
    by_cases hp : p ∈ heard
    · exact .inr (by simp [quorumRule, Reports.heardLiveness, Signal.livenessPids, hp])
    by_cases hq : heard.length + 1 = quorum N
    · exact .inl (by simp [quorumRule, Reports.heardLiveness, hp, hq])
    · exact .inr (by simp [quorumRule, Reports.heardLiveness, Signal.livenessPids, hp, hq])
  | usr1 => exact .inl (by simp [quorumRule])
  | _ => exact .inr ⟨rfl, List.Subset.refl _, List.nil_subset _⟩

theorem le_quorumRule (N : Nat) (x : List Nat × Nat) (sig : Signal) :
    x.2 ≤ (quorumRule N x sig).2 :=
  (quorumRule_cases N x sig).elim le_of_lt fun h => h.1.ge

theorem le_foldl_quorumRule (N : Nat) :
    ∀ (sigs : List Signal) (x : List Nat × Nat), x.2 ≤ (sigs.foldl (quorumRule N) x).2
  | [], _ => le_rfl
  | sig :: sigs, x => (le_quorumRule N x sig).trans (le_foldl_quorumRule N sigs _)

/-- Along the rule, either some step tickles, or every sender heard before or along the way is
still in the set. -/
theorem quorumRule_foldl_cases (N : Nat) :
    ∀ (sigs : List Signal) (x : List Nat × Nat), x.2 < (sigs.foldl (quorumRule N) x).2 ∨
      (x.1 ⊆ (sigs.foldl (quorumRule N) x).1 ∧
        sigs.flatMap Signal.livenessPids ⊆ (sigs.foldl (quorumRule N) x).1)
  | [], _ => .inr ⟨List.Subset.refl _, List.nil_subset _⟩
  | sig :: sigs, x => by
    rw [List.foldl_cons, List.flatMap_cons]
    rcases quorumRule_cases N x sig with hlt | ⟨heq, hx, hsig⟩
    · exact .inl (hlt.trans_le (le_foldl_quorumRule N sigs _))
    rcases quorumRule_foldl_cases N sigs (quorumRule N x sig) with hlt | ⟨hy, hsub⟩
    · exact .inl (heq ▸ hlt)
    · exact .inr ⟨hx.trans hy, List.append_subset.mpr ⟨hsig.trans hy, hsub⟩⟩

/-- Three disks after startup: two reports, a crash and respawn, a `SIGUSR1`, then a report. -/
theorem reports_refine_quorum_rule_after_startup :
    let h : Host := ⟨Kernel.sequential, fun _ => some ⟨5, 1, 10⟩, true⟩
    let devs := ["a", "b", "c"]
    let t : Timeouts := ⟨5, 1, 10⟩
    let s := run h (inquisitor h devs t) [.chld [(1, .exited 0), (2, .exited 0), (3, .exited 0)]]
    let sigs : List Signal :=
      [.liveness 4, .liveness 4, .chld [(5, .signaled 11)], .liveness 7, .usr1, .liveness 6]
    (Reachable h devs t s ∧ 3 ≤ devs.length ∧ s.steady = true ∧ s.exiting = false ∧
      ∀ sig ∈ sigs, sig.reporting = true) ∧
      ((run h s sigs).proc.ending.isSome ∨
        ((run h s sigs).reports.heard, tickles (run h s sigs).proc) =
          sigs.foldl (quorumRule devs.length) (s.reports.heard, tickles s.proc)) :=
  ⟨⟨reachable_run _ _ _ _, by decide, by decide, by decide, by decide⟩,
    reports_refine_quorum_rule (reachable_run _ _ _ _) (by decide) (by decide) (by decide) _
      (by decide)⟩

/-- **A quorum of reports tickles.** With three configured disks or more, along every run of the
steady loop from a reachable state that is not exiting, under any interleaving of `SIG_LIVENESS`es
from processes, `SIGCHLD`s, `SIG_TEST`s and `SIGUSR1`s, once `N / 2 + 1` distinct pids have sent
`SIG_LIVENESS` the watchdog has been tickled, unless the process has ended: a majority of
reporting servants keeps the node from being reset by its watchdog. -/
theorem quorum_of_reports_tickles {devs : List String} {t : Timeouts}
    (hs : Reachable h devs t s) (hN : 3 ≤ devs.length) (hst : s.steady = true)
    (hx : s.exiting = false) (sigs : List Signal) (hsig : ∀ sig ∈ sigs, sig.reporting = true)
    (hq : quorum devs.length ≤ (sigs.flatMap Signal.livenessPids).dedup.length) :
    (run h s sigs).proc.ending.isSome ∨ tickles s.proc < tickles (run h s sigs).proc := by
  rcases quorumRule_run hN sigs (below_of_reachable hs hN) hst hx hsig with hend | he
  · exact .inl hend
  have hh : (run h s sigs).reports.heard = _ := congrArg Prod.fst he
  have ht : tickles (run h s sigs).proc = _ := congrArg Prod.snd he
  rcases quorumRule_foldl_cases devs.length sigs (s.reports.heard, tickles s.proc) with
    hlt | ⟨-, hsub⟩
  · exact .inr (ht ▸ hlt)
  -- with no tickle every sender is still in the array, which stays below the quorum
  have hlen : (sigs.flatMap Signal.livenessPids).dedup.length ≤
      (run h s sigs).reports.heard.length :=
    (List.subperm_of_subset (List.nodup_dedup _) fun p hp =>
      hh ▸ hsub (List.mem_dedup.mp hp)).length_le
  have hb := (below_of_reachable (hs.run sigs) hN).lt_quorum
  omega

/-- Three disks after startup: reports from two distinct pids, the second of them repeated. -/
theorem quorum_of_reports_tickles_after_startup :
    let h : Host := ⟨Kernel.sequential, fun _ => some ⟨5, 1, 10⟩, true⟩
    let devs := ["a", "b", "c"]
    let t : Timeouts := ⟨5, 1, 10⟩
    let s := run h (inquisitor h devs t) [.chld [(1, .exited 0), (2, .exited 0), (3, .exited 0)]]
    let sigs : List Signal := [.liveness 4, .test, .liveness 5, .liveness 5]
    (Reachable h devs t s ∧ 3 ≤ devs.length ∧ s.steady = true ∧ s.exiting = false ∧
      (∀ sig ∈ sigs, sig.reporting = true) ∧
      quorum devs.length ≤ (sigs.flatMap Signal.livenessPids).dedup.length) ∧
      ((run h s sigs).proc.ending.isSome ∨ tickles s.proc < tickles (run h s sigs).proc) :=
  ⟨⟨reachable_run _ _ _ _, by decide, by decide, by decide, by decide, by decide⟩,
    quorum_of_reports_tickles (reachable_run _ _ _ _) (by decide) (by decide) (by decide) _
      (by decide) (by decide)⟩

end Sbd
