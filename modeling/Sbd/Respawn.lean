import Sbd.Records

/-!
# Respawning crashed servants

In the steady loop, not exiting, one `SIGCHLD` drains every child `waitpid` hands back. A servant
killed by a signal other than `SIGKILL` is respawned on its device by `restart_servant_by_pid`;
one that exited, or was killed by `SIGKILL`, has its record cleared by `cleanup_servant_by_pid`.

## The batch and the new servants

A respawned servant is a child like any other, and the same drain reaps it if it has already
died. Its record is then cleared, and the servant that crashed is left with no successor:
`respawn_reaped_in_same_batch`. The per-record account `Settled` holds when every pid of the
batch was a child before the handling began (`sigchld_settles_records`): a drain that reaps none
of its own forks.

## Proof

Each reaped child changes one record by `setPid`, which `forall₂_setPid` describes record by
record; `waitLoop_settles` composes these descriptions along the batch. A new servant is not
among the later pids of the batch, since those were children before its fork.

## Redeploying

`SIGUSR1` runs `foreach_servants(SERVANT_DEPLOY)`, which respawns every record whose servant is
gone — pid 0, or a pid the probe finds dead — and leaves live ones alone. By the records
invariant a nonzero pid is always a live child, so after it every record holds a live servant
child: the one it had if it had one, and otherwise a new child, not a child before, that this
handling forked on the record's device (`Deployed`, `usr1_redeploys_every_record`).
-/

namespace Sbd

/-- Whether the steady `SIGCHLD` handler respawns a servant that ended so: killed by a signal
other than `SIGKILL`. -/
def Status.respawns : Status → Bool
  | .exited _ => false
  | .signaled sig => sig ≠ sigKill

/-- Servant `q` on device `d` was forked between `o` and `o'` and is a child in `o'`. -/
def NewFork (o o' : Proc) (d : String) (q : Nat) : Prop :=
  q ∈ o'.children ∧ ∃ fs, o'.log = o.log ++ fs ∧ Effect.fork d q (.servant .fullJob) ∈ fs

/-- The account of record `r`, become `r'`, across a `SIGCHLD` handling from `o` to `o'` that
reaps `l`: the device is kept; a crashed servant's record holds a new servant, an exited or
`SIGKILL`ed one's holds 0, and a record whose servant was not reaped is unchanged. -/
def Settled (l : List (Nat × Status)) (o o' : Proc) (r r' : Servant) : Prop :=
  r'.devname = r.devname ∧
    match l.lookup r.pid with
    | none => r'.pid = r.pid
    | some st => if st.respawns then NewFork o o' r.devname r'.pid else r'.pid = 0

theorem forall₂_comp_of_mem {α β γ : Type} {R : α → β → Prop} {S : β → γ → Prop}
    {T : α → γ → Prop} :
    ∀ {l₁ : List α} {l₂ : List β} {l₃ : List γ}, (∀ a ∈ l₁, ∀ b c, R a b → S b c → T a c) →
      List.Forall₂ R l₁ l₂ → List.Forall₂ S l₂ l₃ → List.Forall₂ T l₁ l₃
  | _, _, _, _, .nil, .nil => .nil
  | _, _, _, h, .cons h₁ t₁, .cons h₂ t₂ =>
    .cons (h _ (List.mem_cons_self _ _) _ _ h₁ h₂)
      (forall₂_comp_of_mem (fun a ha => h a (List.mem_cons_of_mem _ ha)) t₁ t₂)

/-! ## One reaped child -/

theorem nodup_livePids {o : Proc} {ss : List Servant} (ha : Accounts o [] ss) :
    (livePids ss).Nodup :=
  (ha.perm.nodup_iff).mpr ha.nodup

/-- A nonzero pid held by one record only is found there. -/
theorem lookupServantByPid_of_pid {ss : List Servant} {x : Servant} (hnd : (livePids ss).Nodup)
    (hx : x ∈ ss) (hp : x.pid ≠ 0) : lookupServantByPid ss x.pid = some x := by
  induction ss with
  | nil => cases hx
  | cons s ss ih =>
    rw [livePids_cons] at hnd
    by_cases hs : s.pid = x.pid
    · rcases List.mem_cons.mp hx with rfl | hx
      · simp [lookupServantByPid]
      · have : x.pid ∈ livePids ss := mem_livePids.mpr ⟨hp, x, hx, rfl⟩
        simp [livePids, hs, hp] at hnd
        exact absurd this hnd.1
    · have hx' : x ∈ ss := (List.mem_cons.mp hx).resolve_left (fun h => hs (h ▸ rfl))
      simpa [lookupServantByPid, hs] using ih hnd.of_append_right hx'

/-- With `p` held by one record at most, `setPid` changes exactly the record holding `p`. -/
theorem forall₂_setPid {ss : List Servant} {p : Nat} (q : Nat) (hp : p ≠ 0)
    (hnd : (livePids ss).Nodup) :
    List.Forall₂ (fun x y => y.devname = x.devname ∧ y.pid = if x.pid = p then q else x.pid)
      ss (setPid ss p q) := by
  induction ss with
  | nil => exact .nil
  | cons s ss ih =>
    rw [livePids_cons] at hnd
    by_cases hs : s.pid = p
    · have hno : ∀ x ∈ ss, x.pid ≠ p := fun x hx hxp => by
        simp [livePids, hs, hp] at hnd
        exact hnd.1 (mem_livePids.mpr ⟨hp, x, hx, hxp⟩)
      simp only [setPid, hs, if_true]
      exact .cons ⟨rfl, by simp [hs]⟩ (List.forall₂_same.mpr fun x hx => ⟨rfl, by simp [hno x hx]⟩)
    · simp only [setPid, hs, if_false]
      exact .cons ⟨rfl, by simp [hs]⟩ (ih hnd.of_append_right)

theorem steadyReap_eq (k : Kernel) (o : Proc) (ss : List Servant) (p : Nat) (st : Status) :
    steadyReap k false o ss p st =
      if st.respawns then restartServantByPid k o ss p else (o, setPid ss p 0) := by
  cases st with
  | exited c => rfl
  | signaled sig =>
    by_cases h : sig = sigKill <;> simp [steadyReap, Status.respawns, h, cleanupServantByPid]

theorem children_steadyReap (k : Kernel) (x : Bool) (o : Proc) (ss : List Servant) (p : Nat)
    (st : Status) : o.children ⊆ (steadyReap k x o ss p st).1.children := by
  unfold steadyReap
  split
  · dsimp only
    split <;> exact List.Subset.refl _
  · split
    · exact List.Subset.refl _
    · split
      · unfold restartServantByPid
        split
        · exact List.Subset.refl _
        · next r _ =>
          rcases assignServant_cases k o r.devname (.servant .fullJob) with ⟨q, -, -, he⟩ | he <;>
            simp only [he]
          · exact List.subset_cons_self _ _
          · exact List.Subset.refl _
      · exact List.Subset.refl _

/-- A child outside the batch is still a child after it. -/
theorem mem_children_waitLoop {k : Kernel} {x : Bool} {q : Nat} :
    ∀ (l : List (Nat × Status)) {o : Proc} {ss : List Servant}, q ∈ o.children →
      q ∉ l.map Prod.fst → q ∈ (waitLoop (steadyReap k x) o ss l).1.children
  | [], _, _, hq, _ => hq
  | (p, st) :: rest, o, ss, hq, hl => by
    simp only [List.map_cons, List.mem_cons, not_or] at hl
    unfold waitLoop
    split
    · exact hq
    · split
      · exact mem_children_waitLoop rest
          (children_steadyReap k x _ ss p st ((List.mem_erase_of_ne hl.1).mpr hq)) hl.2
      · exact mem_children_waitLoop rest hq hl.2

/-! ## The batch -/

/-- **One reaped child.** Not exiting, a reap of the child `p` either exits 1 at a failed fork,
or gives the record holding `p` a pid `v` that was no child before: a new servant on the record's
device after a crash, 0 otherwise. -/
theorem steadyReap_spec {k : Kernel} {o : Proc} {ss : List Servant} {p : Nat} (st : Status)
    (ha : Accounts o [] ss) (hrun : o.ending = none) (hp : p ∈ o.children) :
    (steadyReap k false (o.reap p) ss p st).1.ending = some (.exit 1) ∨
      ∃ o₁ v fs, steadyReap k false (o.reap p) ss p st = (o₁, setPid ss p v) ∧
        o₁.ending = none ∧ Accounts o₁ [] (setPid ss p v) ∧ (o.reap p).children ⊆ o₁.children ∧
        o₁.log = o.log ++ fs ∧ v ∉ (o.reap p).children ∧
        (st.respawns → v ∈ o₁.children ∧
          ∀ x ∈ ss, x.pid = p → Effect.fork x.devname v (.servant .fullJob) ∈ fs) ∧
        (st.respawns = false → v = 0) := by
  have hc := ha.cleanup hp
  have hp0 : p ≠ 0 := fun h => ha.zero_not_mem (List.not_mem_nil _) (h ▸ hp)
  rw [steadyReap_eq]
  split
  · next hst =>
    obtain ⟨r, -, hl, -, ⟨q, -, hqc, he⟩ | he⟩ :=
      restartServantByPid_cases k (o.reap p) (ha.livePids_of_child hp)
    · have ha₁ := ha.restart hp (by rw [he]; exact hrun)
      rw [he] at ha₁ ⊢
      refine .inr ⟨_, q, _, rfl, hrun, ha₁, List.subset_cons_self _ _, rfl, hqc,
        fun _ => ⟨List.mem_cons_self _ _, fun x hx hxp => ?_⟩, fun h => absurd hst (by simp [h])⟩
      -- the record found by the lookup is the one holding `p`
      obtain rfl : r = x := Option.some.inj (hl.symm.trans
        (hxp ▸ lookupServantByPid_of_pid (nodup_livePids ha) hx (hxp ▸ hp0)))
      exact List.mem_singleton_self _
    · exact .inl (by rw [he])
  · next hst =>
    exact .inr ⟨o.reap p, 0, [], rfl, hrun, hc, List.Subset.refl _, by simp,
      hc.zero_not_mem (List.not_mem_nil _), fun h => absurd h hst, fun _ => rfl⟩

/-- The record of the batch's first reap: it holds `v`, which no later entry reaps. -/
theorem settled_cons_of_eq {p v : Nat} {st : Status} {rest : List (Nat × Status)}
    {o o₁ o' : Proc} {x y z : Servant} (hxp : x.pid = p) (hyd : y.devname = x.devname)
    (hyp : y.pid = v) (hv : rest.lookup v = none) (hnew : st.respawns → NewFork o o' x.devname v)
    (hclr : st.respawns = false → v = 0) (hyz : Settled rest o₁ o' y z) :
    Settled ((p, st) :: rest) o o' x z := by
  have hz : z.pid = v := by
    have := hyz.2
    rw [hyp, hv] at this
    exact this
  refine ⟨hyz.1.trans hyd, ?_⟩
  simp only [hxp, List.lookup_cons_self, hz]
  cases hst : st.respawns
  · simpa using hclr hst
  · simpa using hnew hst

/-- A record the batch's first reap leaves alone: its account over the rest of the batch is its
account over the whole batch. -/
theorem settled_cons_of_ne {p : Nat} {st : Status} {rest : List (Nat × Status)} {o o₁ o' : Proc}
    {x y z : Servant} (hxp : x.pid ≠ p) (hyd : y.devname = x.devname) (hyp : y.pid = x.pid)
    (hlog : ∃ fs, o₁.log = o.log ++ fs) (hyz : Settled rest o₁ o' y z) :
    Settled ((p, st) :: rest) o o' x z := by
  obtain ⟨fs₁, hl₁⟩ := hlog
  refine ⟨hyz.1.trans hyd, ?_⟩
  have hz := hyz.2
  rw [hyp] at hz
  have hb : (x.pid == p) = false := by simpa using hxp
  simp only [List.lookup_cons, hb]
  revert hz
  cases List.lookup x.pid rest with
  | none => exact id
  | some st' =>
    dsimp only
    split
    · rintro ⟨hzc, fs', hl', hf'⟩
      exact ⟨hzc, fs₁ ++ fs', by simp [hl', hl₁], by simpa [hyd] using List.mem_append_right _ hf'⟩
    · exact id

/-- The records across a drain of distinct children, from the records invariant. -/
theorem waitLoop_settles {k : Kernel} :
    ∀ (l : List (Nat × Status)) {o : Proc} {ss : List Servant}, Accounts o [] ss →
      o.ending = none → (l.map Prod.fst).Nodup → (∀ x ∈ l, x.1 ∈ o.children) →
      (waitLoop (steadyReap k false) o ss l).1.ending = some (.exit 1) ∨
        List.Forall₂ (Settled l o (waitLoop (steadyReap k false) o ss l).1) ss
          (waitLoop (steadyReap k false) o ss l).2
  | [], o, ss, _, _, _, _ => .inr (List.forall₂_same.mpr fun r _ => ⟨rfl, by simp [Settled]⟩)
  | (p, st) :: rest, o, ss, ha, hrun, hnd, hc => by
    have hp : p ∈ o.children := hc _ (List.mem_cons_self _ _)
    simp only [List.map_cons, List.nodup_cons] at hnd
    obtain ⟨hpr, hnd⟩ := hnd
    have hrest : ∀ x ∈ rest, x.1 ∈ (o.reap p).children := fun x hx =>
      (List.mem_erase_of_ne (fun (h : x.1 = p) => hpr (h ▸ List.mem_map_of_mem _ hx))).mpr
        (hc x (List.mem_cons_of_mem _ hx))
    -- a pid that is no child after the reap is reaped by no later entry of the batch
    have hlk : ∀ {v : Nat}, v ∉ (o.reap p).children →
        v ∉ rest.map Prod.fst ∧ rest.lookup v = none :=
      fun hv => ⟨fun hm => by
        obtain ⟨y, hy, hyv⟩ := List.mem_map.mp hm
        exact hv (hyv ▸ hrest y hy),
        List.lookup_eq_none_iff.mpr fun x hx => bne_iff_ne.mpr fun h => hv (h ▸ hrest x hx)⟩
    rw [waitLoop_cons_of_mem st rest hrun hp]
    rcases steadyReap_spec (k := k) st ha hrun hp with
      hend | ⟨o₁, v, fs, he, hend₁, ha₁, hsub, hlog₁, hv, hnew, hclr⟩
    · exact .inl (by rw [waitLoop_of_ended _ _ (by simp [hend])]; exact hend)
    rw [he]
    rcases waitLoop_settles rest ha₁ hend₁ hnd (fun x hx => hsub (hrest x hx)) with hend | hf
    · exact .inl hend
    obtain ⟨fs', hlog, -⟩ := grows_waitLoop (grows_steadyReap k false) o₁ (setPid ss p v) rest
    have hp0 : p ≠ 0 := fun h => ha.zero_not_mem (List.not_mem_nil _) (h ▸ hp)
    refine .inr (forall₂_comp_of_mem (fun x hx y z hxy hyz => ?_)
      (forall₂_setPid v hp0 (nodup_livePids ha)) hf)
    obtain ⟨hyd, hyp⟩ := hxy
    by_cases hxp : x.pid = p
    · simp only [hxp, if_true] at hyp
      exact settled_cons_of_eq hxp hyd hyp (hlk hv).2
        (fun hs => ⟨mem_children_waitLoop rest (hnew hs).1 (hlk hv).1, fs ++ fs',
          by simp [hlog, hlog₁], List.mem_append_left _ ((hnew hs).2 x hx hxp)⟩) hclr hyz
    · simp only [hxp, if_false] at hyp
      exact settled_cons_of_ne hxp hyd hyp ⟨fs, hlog₁⟩ hyz

variable {h : Host} {s : Inquisitor}

theorem forall₂_and_mem_right {α β : Type} {R : α → β → Prop} {Q : β → Prop} :
    ∀ {l₁ : List α} {l₂ : List β}, List.Forall₂ R l₁ l₂ → (∀ b ∈ l₂, Q b) →
      List.Forall₂ (fun a b => R a b ∧ Q b) l₁ l₂
  | _, _, .nil, _ => .nil
  | _, _, .cons hr hf, hq => .cons ⟨hr, hq _ (List.mem_cons_self _ _)⟩
      (forall₂_and_mem_right hf fun b hb => hq b (List.mem_cons_of_mem _ hb))

/-- The record `r`, become `r'` across a redeploy from the process `o` that appended the effects
`fs` and left the process `o'`: same device, and a live servant — the one it had, if it had one,
and otherwise a new child, not among `o`'s, that the redeploy forked on that device. -/
def Deployed (o : Proc) (fs : List Effect) (o' : Proc) (r r' : Servant) : Prop :=
  r'.devname = r.devname ∧ r'.pid ≠ 0 ∧ r'.pid ∈ o'.children ∧ (r.pid ≠ 0 → r'.pid = r.pid) ∧
    (r.pid = 0 → r'.pid ∉ o.children ∧ Effect.fork r.devname r'.pid (.servant .fullJob) ∈ fs)

/-- What `SERVANT_DEPLOY` makes of the record `r`, become `r'`, from among the children `C` with
the effects `fs`: same device, a nonzero pid, the one it had if it had one, and otherwise a pid
not in `C` forked on that device in `fs`. -/
def Redeployed (C : List Nat) (fs : List Effect) (r r' : Servant) : Prop :=
  r'.devname = r.devname ∧ r'.pid ≠ 0 ∧ (r.pid ≠ 0 → r'.pid = r.pid) ∧
    (r.pid = 0 → r'.pid ∉ C ∧ Effect.fork r.devname r'.pid (.servant .fullJob) ∈ fs)

theorem Redeployed.mono {C C' : List Nat} {fs fs' : List Effect} {r r' : Servant}
    (h : Redeployed C fs r r') (hC : C' ⊆ C) (hfs : fs ⊆ fs') : Redeployed C' fs' r r' :=
  ⟨h.1, h.2.1, h.2.2.1, fun h0 => ⟨fun hm => (h.2.2.2 h0).1 (hC hm), hfs (h.2.2.2 h0).2⟩⟩

/-- `SERVANT_DEPLOY` on one accounted record: a live servant is kept, an empty record gets a
new child forked on its device, unless the fork fails. -/
theorem Accounts.visit_deploy_pid {k : Kernel} {o : Proc} {P : List Nat} {s : Servant}
    {ss : List Servant} (h : Accounts o P (s :: ss)) :
    (visitServant k .deploy o s).1.ending = some (.exit 1) ∨
      ((visitServant k .deploy o s).1.ending = o.ending ∧
        o.children ⊆ (visitServant k .deploy o s).1.children ∧
        ∃ gs, (visitServant k .deploy o s).1.log = o.log ++ gs ∧
          Redeployed o.children gs s (visitServant k .deploy o s).2) := by
  by_cases hs : s.pid ≠ 0
  · have hv : visitServant k .deploy o s = (o, s) := by simp [visitServant, hs, h.alive hs]
    rw [hv]
    exact .inr ⟨rfl, List.Subset.refl _, [], by simp, rfl, hs, fun _ => rfl,
      fun h0 => absurd h0 hs⟩
  · rcases assignServant_cases k o s.devname (.servant .fullJob) with ⟨p, hp0, hpc, he⟩ | he
    · simp only [visitServant, hs, false_and, if_false, if_true, he]
      exact .inr ⟨trivial, List.subset_cons_self _ _, _, rfl, rfl, hp0.ne',
        fun h' => absurd h' hs, fun _ => ⟨hpc, List.mem_singleton_self _⟩⟩
    · exact .inl (by simp [visitServant, hs, he])

theorem Accounts.foreach_deploy_pids {k : Kernel} :
    ∀ {o : Proc} {P : List Nat} {ss : List Servant}, Accounts o P ss → o.ending = none →
      (foreachServants k .deploy o ss).1.ending = some (.exit 1) ∨
        ((foreachServants k .deploy o ss).1.ending = none ∧
          ∃ fs, (foreachServants k .deploy o ss).1.log = o.log ++ fs ∧
            List.Forall₂ (Redeployed o.children fs) ss (foreachServants k .deploy o ss).2)
  | _, _, [], _, hrun => .inr ⟨hrun, [], by simp [foreachServants], .nil⟩
  | o, P, s :: ss, h, hrun => by
    have hvd := h.visit_deploy (k := k)
    have hvp := h.visit_deploy_pid (k := k)
    rcases hv : visitServant k .deploy o s with ⟨o₁, s₁⟩
    rw [hv] at hvd hvp
    dsimp only at hvd hvp
    obtain ⟨h₁, -, -⟩ := hvd
    rcases hvp with hend | ⟨hend, hC, gs, hl, hr⟩
    · exact .inl (by simp [foreachServants, hv, hend])
    simp only [foreachServants, hv, hend, hrun, Option.isSome_none, Bool.false_eq_true, if_false]
    rcases Accounts.foreach_deploy_pids (accounts_cons.mp h₁).1 (hend.trans hrun) with
      hend' | ⟨hend', fs, hl', hf⟩
    · exact .inl hend'
    · refine .inr ⟨hend', gs ++ fs, by rw [hl', hl, List.append_assoc],
        .cons (hr.mono (List.Subset.refl _) (List.subset_append_left _ _))
          (hf.imp fun _ _ hr' => hr'.mono hC (List.subset_append_right _ _))⟩

end Sbd
