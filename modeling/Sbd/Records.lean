import Sbd.Emits

/-!
# The servant records track the children

The inquisitor never asks the kernel which children it has: it trusts its records. This file
proves the trust is warranted. In every reachable state of a running inquisitor, through both
loops,

* the records are the configured devices, in order (`RecordsInv.devnames`);
* their nonzero pids are exactly the unreaped children — none orphaned, none shared
  (`Accounts.perm`, `Accounts.nodup`);
* each of them was forked for its own record's device (`Accounts.forked`).

## Accounting for a list walk

`foreach_servants` and the fork loops rewrite records one at a time, so their lemmas carry the
live pids `P` of the records already walked: `Accounts o P ss` says `P` and the records `ss`
together account for the children. `accounts_cons` moves one record from `ss` into `P`.

The one operation that can break the accounts is a failed fork in `restart_servant_by_pid`:
the child is already reaped when `assign_servant` calls `exit(1)`. The process is then gone, so
the invariant is asked of running processes only (`Sound`).
-/

namespace Sbd

/-- A record's servant was forked on the record's own device. -/
def Forked (log : List Effect) (r : Servant) : Prop :=
  r.pid ≠ 0 → ∃ job, Effect.fork r.devname r.pid job ∈ log

/-- The records `ss`, with the live pids `P` held by records elsewhere, account exactly for the
unreaped children, each forked for its own record. -/
structure Accounts (o : Proc) (P : List Nat) (ss : List Servant) : Prop where
  perm : (P ++ livePids ss).Perm o.children
  nodup : o.children.Nodup
  forked : ∀ r ∈ ss, Forked o.log r

theorem Forked.mono {l l' : List Effect} {r : Servant} (h : Forked l r) (hl : l ⊆ l') :
    Forked l' r := fun hr => (h hr).imp fun _ hj => hl hj

theorem Accounts.mono {o u : Proc} {P : List Nat} {ss : List Servant} (h : Accounts o P ss)
    (hc : u.children = o.children) (hl : o.log ⊆ u.log) : Accounts u P ss :=
  ⟨hc ▸ h.perm, hc ▸ h.nodup, fun r hr => (h.forked r hr).mono hl⟩

theorem mem_setPid {ss : List Servant} {p q : Nat} {x : Servant} (hx : x ∈ setPid ss p q) :
    x ∈ ss ∨ ∃ r, lookupServantByPid ss p = some r ∧ x = { r with pid := q } := by
  induction ss with
  | nil => simp [setPid] at hx
  | cons s ss ih =>
    by_cases hs : s.pid = p
    · simp only [setPid, hs, if_true, List.mem_cons] at hx
      rcases hx with rfl | hx
      · exact .inr ⟨s, by simp [lookupServantByPid, hs], rfl⟩
      · exact .inl (List.mem_cons_of_mem _ hx)
    · simp only [setPid, hs, if_false, List.mem_cons] at hx
      rcases hx with rfl | hx
      · exact .inl (List.mem_cons_self _ _)
      · rcases ih hx with h | ⟨r, hr, rfl⟩
        · exact .inl (List.mem_cons_of_mem _ h)
        · exact .inr ⟨r, by simp [lookupServantByPid, hs, hr], rfl⟩


theorem livePids_cons (s : Servant) (ss : List Servant) :
    livePids (s :: ss) = livePids [s] ++ livePids ss := by
  by_cases h : s.pid = 0 <;> simp [livePids, h]

theorem accounts_cons {o : Proc} {P : List Nat} {s : Servant} {ss : List Servant} :
    Accounts o P (s :: ss) ↔ Accounts o (P ++ livePids [s]) ss ∧ Forked o.log s := by
  constructor
  · intro h
    refine ⟨⟨?_, h.nodup, fun r hr => h.forked r (List.mem_cons_of_mem _ hr)⟩,
      h.forked s (List.mem_cons_self _ _)⟩
    simpa [livePids_cons s ss] using h.perm
  · rintro ⟨h, hs⟩
    refine ⟨?_, h.nodup, ?_⟩
    · simpa [livePids_cons s ss] using h.perm
    · intro r hr
      rcases List.mem_cons.mp hr with rfl | hr
      · exact hs
      · exact h.forked r hr

theorem Accounts.zero_not_mem {o : Proc} {P : List Nat} {ss : List Servant}
    (h : Accounts o P ss) (hP : 0 ∉ P) : 0 ∉ o.children := by
  rw [← h.perm.mem_iff]
  simp [hP, mem_livePids]

/-- A nonzero pid in the records is an unreaped child, so it answers the probe. -/
theorem Accounts.alive {k : Kernel} {o : Proc} {P : List Nat} {s : Servant} {ss : List Servant}
    (h : Accounts o P (s :: ss)) (hs : s.pid ≠ 0) : o.alive k s.pid := by
  refine Proc.alive_of_mem (h.perm.subset ?_)
  simp [mem_livePids, hs]

/-- A fork that succeeds adds its pid to the children and records it for `s`'s device. -/
theorem Accounts.fork {k : Kernel} {o o' : Proc} {P : List Nat} {s : Servant} {ss : List Servant}
    {j : Job} {q : Nat} (h : Accounts o P ss)
    (hf : assignServant k o s.devname j = (o', some q)) :
    Accounts o' (P ++ livePids [{ s with pid := q }]) ss ∧ Forked o'.log { s with pid := q } ∧
      o.log ⊆ o'.log := by
  rcases assignServant_cases k o s.devname j with ⟨p, hp0, hpc, he⟩ | he <;> rw [he] at hf
  · simp only [Prod.mk.injEq, Option.some.injEq] at hf
    obtain ⟨rfl, rfl⟩ := hf
    refine ⟨⟨?_, ?_, fun r hr => (h.forked r hr).mono (List.subset_append_left _ _)⟩,
      fun _ => ⟨j, by simp⟩, List.subset_append_left _ _⟩
    · simpa [livePids, hp0.ne'] using List.perm_middle.trans (h.perm.cons p)
    · exact List.nodup_cons.mpr ⟨hpc, h.nodup⟩
  · simp at hf


/-- `SERVANT_DEPLOY` on one record keeps the accounts: a live servant is left alone, an empty
record gets a fresh one. -/
theorem Accounts.visit_deploy {k : Kernel} {o : Proc} {P : List Nat} {s : Servant}
    {ss : List Servant} (h : Accounts o P (s :: ss)) :
    Accounts (visitServant k .deploy o s).1 P ((visitServant k .deploy o s).2 :: ss) ∧
      (visitServant k .deploy o s).2.devname = s.devname ∧
      o.log ⊆ (visitServant k .deploy o s).1.log := by
  by_cases hs : s.pid ≠ 0
  · simp [visitServant, hs, h.alive hs, h]
  · have hs0 : s.pid = 0 := not_not.mp hs
    rcases assignServant_cases k o s.devname (.servant .fullJob) with ⟨p, -, -, he⟩ | he
    · obtain ⟨h', hf⟩ := accounts_cons.mp h
      have hfork := (h'.fork (s := s) he)
      have hP : P ++ livePids [s] = P := by simp [livePids, hs0]
      rw [hP] at hfork
      simp only [visitServant, hs, false_and, if_false, if_true, he]
      exact ⟨accounts_cons.mpr ⟨hfork.1, hfork.2.1⟩, trivial, hfork.2.2⟩
    · simp only [visitServant, hs, false_and, if_false, if_true, he]
      exact ⟨h.mono rfl (List.Subset.refl _), trivial, List.Subset.refl _⟩


theorem Accounts.foreach_deploy {k : Kernel} : ∀ {o : Proc} {P : List Nat} {ss : List Servant},
    Accounts o P ss →
    Accounts (foreachServants k .deploy o ss).1 P (foreachServants k .deploy o ss).2 ∧
      (foreachServants k .deploy o ss).2.map Servant.devname = ss.map Servant.devname ∧
      o.log ⊆ (foreachServants k .deploy o ss).1.log
  | o, P, [], h => ⟨h, rfl, List.Subset.refl _⟩
  | o, P, s :: ss, h => by
    have hvd := h.visit_deploy (k := k)
    rcases hv : visitServant k .deploy o s with ⟨o₁, s₁⟩
    rw [hv] at hvd
    obtain ⟨h1, hd1, hl1⟩ : Accounts o₁ P (s₁ :: ss) ∧ s₁.devname = s.devname ∧ o.log ⊆ o₁.log :=
      hvd
    simp only [foreachServants, hv]
    split
    · exact ⟨h1, by simp [hd1], hl1⟩
    · obtain ⟨h2, hf2⟩ := accounts_cons.mp h1
      obtain ⟨h3, hd3, hl3⟩ := Accounts.foreach_deploy (k := k) h2
      exact ⟨accounts_cons.mpr ⟨h3, hf2.mono hl3⟩, by simp [hd1, hd3], hl1.trans hl3⟩

theorem accounts_forkAll {k : Kernel} {j : Job} : ∀ {o : Proc} {P : List Nat} {ss : List Servant},
    Accounts o P ss → (∀ s ∈ ss, s.pid = 0) →
    Accounts (forkAll k j o ss).1 P (forkAll k j o ss).2 ∧
      (forkAll k j o ss).2.map Servant.devname = ss.map Servant.devname ∧
      o.log ⊆ (forkAll k j o ss).1.log
  | o, P, [], h, _ => ⟨h, rfl, List.Subset.refl _⟩
  | o, P, s :: ss, h, h0 => by
    obtain ⟨h', -⟩ := accounts_cons.mp h
    have hP : P ++ livePids [s] = P := by simp [livePids, h0 s (List.mem_cons_self _ _)]
    rw [hP] at h'
    rcases assignServant_cases k o s.devname j with ⟨p, -, -, he⟩ | he
    · obtain ⟨h2, hf2, hl2⟩ := h'.fork (s := s) he
      obtain ⟨h3, hd3, hl3⟩ := accounts_forkAll h2 (fun r hr => h0 r (List.mem_cons_of_mem _ hr))
      simp only [forkAll, he]
      exact ⟨accounts_cons.mpr ⟨h3, hf2.mono hl3⟩, by simp [hd3], hl2.trans hl3⟩
    · simp only [forkAll, he]
      exact ⟨h.mono rfl (List.Subset.refl _), trivial, List.Subset.refl _⟩


theorem Accounts.livePids_of_child {o : Proc} {ss : List Servant} {p : Nat} (h : Accounts o [] ss)
    (hp : p ∈ o.children) : p ∈ livePids ss := by
  simpa using h.perm.mem_iff.mpr hp

/-- Reaping a child and clearing its record keeps the accounts. -/
theorem Accounts.cleanup {o : Proc} {ss : List Servant} {p : Nat} (h : Accounts o [] ss)
    (hp : p ∈ o.children) : Accounts (o.reap p) [] (cleanupServantByPid ss p) := by
  have hpl := h.livePids_of_child hp
  refine ⟨?_, h.nodup.erase p, fun x hx => ?_⟩
  · have := livePids_setPid 0 (mem_livePids.mp hpl).1 hpl
    simp only [livePids, if_true, List.nil_append] at this
    simpa using this.trans (by simpa using h.perm.erase p)
  · rcases mem_setPid hx with hx | ⟨r, -, rfl⟩
    · exact h.forked x hx
    · exact fun h0 => absurd rfl h0

/-- What `restart_servant_by_pid` does for a pid the records hold: find the record, and either
give it a freshly forked `SERVANT_DO_FULLJOB` servant or end the process. -/
theorem restartServantByPid_cases (k : Kernel) (o : Proc) {ss : List Servant} {p : Nat}
    (hp : p ∈ livePids ss) :
    ∃ r ∈ ss, lookupServantByPid ss p = some r ∧ r.pid = p ∧
      ((∃ q, 0 < q ∧ q ∉ o.children ∧ restartServantByPid k o ss p =
        ({ o with children := q :: o.children, forks := o.forks + 1,
                  log := o.log ++ [.fork r.devname q (.servant .fullJob)] }, setPid ss p q)) ∨
       restartServantByPid k o ss p =
         ({ o with forks := o.forks + 1, ending := some (.exit 1) }, ss)) := by
  obtain ⟨r, hr, hl, hrp⟩ := lookupServantByPid_of_mem hp
  refine ⟨r, hr, hl, hrp, ?_⟩
  rcases assignServant_cases k o r.devname (.servant .fullJob) with ⟨q, hq0, hqc, he⟩ | he
  · exact .inl ⟨q, hq0, hqc, by simp [restartServantByPid, hl, he]⟩
  · exact .inr (by simp [restartServantByPid, hl, he])

/-- A successful restart keeps the accounts. -/
theorem Accounts.restart {k : Kernel} {o : Proc} {ss : List Servant} {p : Nat}
    (h : Accounts o [] ss) (hp : p ∈ o.children)
    (hend : (restartServantByPid k (o.reap p) ss p).1.ending = none) :
    Accounts (restartServantByPid k (o.reap p) ss p).1 []
      (restartServantByPid k (o.reap p) ss p).2 := by
  have hpl := h.livePids_of_child hp
  have hc := h.cleanup hp
  obtain ⟨r, -, hl, hrp, ⟨q, hq0, hqc, he⟩ | he⟩ := restartServantByPid_cases k (o.reap p) hpl
  · rw [he]
    refine ⟨?_, List.nodup_cons.mpr ⟨hqc, hc.nodup⟩, fun x hx => ?_⟩
    · have := livePids_setPid q (mem_livePids.mp hpl).1 hpl
      simp only [livePids, hq0.ne', if_false, List.nil_append] at this
      simpa using
        this.trans ((by simpa using h.perm.erase p : ((livePids ss).erase p).Perm _).cons q)
    · rcases mem_setPid hx with hx | ⟨r', hr', rfl⟩
      · exact (h.forked x hx).mono (List.subset_append_left _ _)
      · rw [hl] at hr'
        cases hr'
        exact fun _ => ⟨.servant .fullJob, by simp⟩
  · rw [he] at hend
    simp at hend



theorem map_devname_restartServantByPid (k : Kernel) (o : Proc) (ss : List Servant) (p : Nat) :
    (restartServantByPid k o ss p).2.map Servant.devname = ss.map Servant.devname := by
  unfold restartServantByPid
  split
  · rfl
  · split <;> simp

/-! ## The invariant -/

/-- **The servant-record invariant**, for the configured devices `devs`: the records are those
devices in order, and their nonzero pids are exactly the unreaped children, each held once and
forked for its own record. -/
structure RecordsInv (devs : List String) (o : Proc) (ss : List Servant) : Prop where
  devnames : ss.map Servant.devname = devs
  accounts : Accounts o [] ss

/-- The invariant, asked of a process that is still running. -/
def Sound (devs : List String) (s : Inquisitor) : Prop :=
  s.proc.ending = none → RecordsInv devs s.proc s.servants

variable {devs : List String} {o : Proc} {ss : List Servant}

theorem RecordsInv.mono {o' : Proc} (h : RecordsInv devs o ss) (hc : o'.children = o.children)
    (hl : o.log ⊆ o'.log) : RecordsInv devs o' ss :=
  ⟨h.devnames, h.accounts.mono hc hl⟩

theorem RecordsInv.cleanup {p : Nat} (h : RecordsInv devs o ss) (hp : p ∈ o.children) :
    RecordsInv devs (o.reap p) (cleanupServantByPid ss p) :=
  ⟨by simp [cleanupServantByPid, h.devnames], h.accounts.cleanup hp⟩

theorem recordsInv_steadyReap {k : Kernel} {x : Bool} {p : Nat} (h : RecordsInv devs o ss)
    (hp : p ∈ o.children) (st : Status)
    (hend : (steadyReap k x (o.reap p) ss p st).1.ending = none) :
    RecordsInv devs (steadyReap k x (o.reap p) ss p st).1
      (steadyReap k x (o.reap p) ss p st).2 := by
  have hc := h.cleanup hp
  unfold steadyReap at hend ⊢
  split
  · dsimp only
    split
    · exact hc.mono rfl (List.Subset.refl _)
    · exact hc
  · split
    · exact hc
    · split
      · exact ⟨by rw [map_devname_restartServantByPid, h.devnames],
          h.accounts.restart hp (by simpa [*] using hend)⟩
      · exact hc

theorem recordsInv_startupReap {h : Host} {a : List Servant × Tally} {p : Nat}
    (hi : RecordsInv devs o a.1) (hp : p ∈ o.children) (st : Status) :
    RecordsInv devs (startupReap h (o.reap p) a p st).1 (startupReap h (o.reap p) a p st).2.1 := by
  have hc := hi.cleanup hp
  obtain ⟨r, -, hl, -⟩ := lookupServantByPid_of_mem (hi.accounts.livePids_of_child hp)
  unfold startupReap
  simp only [hl]
  dsimp only
  split
  · split
    · exact hc.mono rfl (List.Subset.refl _)
    · exact hc
  · exact hc


/-! ## Every handler keeps it -/

variable {h : Host} {s : Inquisitor}

theorem sound_startupCheck (hs : RecordsInv devs s.proc s.servants) :
    Sound devs (startupCheck h s) := by
  intro hend
  unfold startupCheck at hend ⊢
  split
  · exact hs
  · split
    · obtain ⟨ha, hd, hl⟩ :=
        (hs.accounts.mono (u := s.proc.emit .makeDaemon) rfl
          (List.subset_append_left _ _)).foreach_deploy (k := h.kernel)
      have hr : RecordsInv devs _ _ := ⟨hd.trans hs.devnames, ha⟩
      dsimp only
      split
      · exact hr
      · dsimp only
        split
        · exact hr.mono rfl (List.subset_append_left _ _)
        · exact hr
    · exact hs.mono rfl (List.Subset.refl _)

theorem sound_waitLoop_steady {k : Kernel} {x : Bool} (hs : RecordsInv devs o ss)
    (l : List (Nat × Status)) :
    (waitLoop (steadyReap k x) o ss l).1.ending = none →
      RecordsInv devs (waitLoop (steadyReap k x) o ss l).1 (waitLoop (steadyReap k x) o ss l).2 :=
  waitLoop_induction (fun o ss => o.ending = none → RecordsInv devs o ss)
    (fun _ _ _ st hi hend hp hend' => recordsInv_steadyReap (hi hend) hp st hend') o ss l
    (fun _ => hs)

theorem sound_steadyStep (hs : RecordsInv devs s.proc s.servants) (sig : Signal) :
    Sound devs (steadyStep h.kernel s sig) := by
  intro hend
  cases sig with
  | exitreq =>
    obtain ⟨h1, h2, -, kills, h4, -⟩ := foreachServants_callback h.kernel s.proc s.servants
    show RecordsInv devs
      ((foreachServants h.kernel .callback s.proc s.servants).1.emit .watchdogClose)
      (foreachServants h.kernel .callback s.proc s.servants).2
    rw [h1]
    exact hs.mono (by simp [h2]) (by simp [h4])
  | chld l => exact sound_waitLoop_steady hs l hend
  | liveness p =>
    simp only [steadyStep]
    split
    · exact hs
    · split
      · exact hs.mono rfl (List.subset_append_left _ _)
      · exact hs
  | test => exact hs
  | usr1 =>
    simp only [steadyStep] at hend ⊢
    split
    · exact hs
    · obtain ⟨ha, hd, hl⟩ :=
        (hs.accounts.mono (u := s.proc.emit .watchdogTickle) rfl
          (List.subset_append_left _ _)).foreach_deploy (k := h.kernel)
      have hr : RecordsInv devs _ _ := ⟨hd.trans hs.devnames, ha⟩
      split
      · exact hr
      · exact hr.mono rfl (List.subset_append_left _ _)
  | usr2 => exact hs

theorem sound_startupStep (hs : RecordsInv devs s.proc s.servants) (sig : Signal) :
    Sound devs (startupStep h s sig) := by
  cases sig with
  | chld l =>
    apply sound_startupCheck
    exact waitLoop_induction (fun o a => RecordsInv devs o a.1)
      (fun _ _ _ st hi _ hp => recordsInv_startupReap hi hp st) s.proc (s.servants, s.tally) l hs
  | _ => exact sound_startupCheck hs

theorem sound_step (hs : Sound devs s) (sig : Signal) : Sound devs (step h s sig) := by
  unfold step
  split
  · exact hs
  · next hend =>
    have hi := hs (by simpa using hend)
    split
    · exact sound_steadyStep hi sig
    · exact sound_startupStep hi sig

theorem sound_inquisitor (t : Timeouts) : Sound devs (inquisitor h devs t) := by
  apply sound_startupCheck
  have h0 : Accounts Proc.fresh [] (devs.map (⟨·, 0⟩)) :=
    ⟨by induction devs <;> simp_all [Proc.fresh, livePids], List.nodup_nil, by simp [Forked]⟩
  obtain ⟨ha, hd, -⟩ := accounts_forkAll (k := h.kernel) (j := .servant .prepareOnly) h0 (by simp)
  exact ⟨by simpa [Function.comp_def] using hd, ha⟩


theorem sound_of_reachable {t : Timeouts} (hs : Reachable h devs t s) : Sound devs s := by
  induction hs with
  | start => exact sound_inquisitor t
  | step sig _ ih => exact sound_step ih sig

/-- **The records track the children.** In every reachable state of a running inquisitor,
through the startup loop and the steady loop, the nonzero pids of the records are exactly its
unreaped children, no two records hold the same one, each was forked for its own record's
device, and the records are the configured devices in order. -/
theorem records_track_children {t : Timeouts} (hs : Reachable h devs t s)
    (hrun : s.proc.ending = none) :
    (livePids s.servants).Perm s.proc.children ∧ (livePids s.servants).Nodup ∧
      s.servants.map Servant.devname = devs ∧
      ∀ r ∈ s.servants, r.pid ≠ 0 → ∃ job, Effect.fork r.devname r.pid job ∈ s.proc.log := by
  have hi := sound_of_reachable hs hrun
  have hp : (livePids s.servants).Perm s.proc.children := by simpa using hi.accounts.perm
  exact ⟨hp, hp.nodup_iff.mpr hi.accounts.nodup, hi.devnames, hi.accounts.forked⟩

theorem records_track_children_at_start :
    let h : Host := ⟨Kernel.sequential, fun _ => some ⟨5, 1, 10⟩, true⟩
    let s := inquisitor h ["/dev/sda", "/dev/sdb"] ⟨5, 1, 10⟩
    s.proc.ending = none ∧ (livePids s.servants).Perm s.proc.children ∧
      (livePids s.servants).Nodup ∧ s.servants.map Servant.devname = ["/dev/sda", "/dev/sdb"] ∧
      ∀ r ∈ s.servants, r.pid ≠ 0 → ∃ job, Effect.fork r.devname r.pid job ∈ s.proc.log :=
  ⟨by decide, records_track_children .start (by decide)⟩

end Sbd
