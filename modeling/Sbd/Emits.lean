import Sbd.Inquisitor

/-!
# What each handler shows outside

Every handler only appends to the process log. `Grows p o o'` says `o'` continues `o` by effects
that all satisfy `p`; one lemma per handler states which effects it can append, and the trace
facts the later modules need — no tickle outside the `SIG_LIVENESS` and `SIGUSR1` handlers,
nothing but `SIGKILL`s and the magic close once the exit cascade has begun — follow from these
without unfolding a handler again.
-/

namespace Sbd

/-- `o'` continues `o`: its log is `o`'s log followed by effects that all satisfy `p`. -/
def Grows (p : Effect → Prop) (o o' : Proc) : Prop := ∃ fs, o'.log = o.log ++ fs ∧ ∀ e ∈ fs, p e

/-- A fork of a `SERVANT_DO_FULLJOB` servant. -/
def IsDeploy (e : Effect) : Prop := ∃ d q, e = .fork d q (.servant .fullJob)

namespace Grows

variable {p r : Effect → Prop} {o o₁ o₂ : Proc}

theorem of_log (h : o₁.log = o.log) : Grows p o o₁ := ⟨[], by simp [h], by simp⟩

theorem rfl' : Grows p o o := of_log rfl

theorem trans (h₁ : Grows p o o₁) (h₂ : Grows p o₁ o₂) : Grows p o o₂ := by
  obtain ⟨f₁, hl₁, hp₁⟩ := h₁
  obtain ⟨f₂, hl₂, hp₂⟩ := h₂
  exact ⟨f₁ ++ f₂, by simp [hl₂, hl₁], fun e he => (List.mem_append.mp he).elim (hp₁ e) (hp₂ e)⟩

theorem imp (h : Grows p o o₁) (hpr : ∀ e, p e → r e) : Grows r o o₁ :=
  let ⟨fs, hl, hp⟩ := h
  ⟨fs, hl, fun e he => hpr e (hp e he)⟩

theorem emit (e : Effect) (he : p e) : Grows p o (o.emit e) := ⟨[e], rfl, by simp [he]⟩

theorem subset (h : Grows p o o₁) : o.log ⊆ o₁.log := by
  obtain ⟨fs, hl, -⟩ := h
  rw [hl]
  exact List.subset_append_left _ _

/-- Effects `p` excludes are counted the same before and after. -/
theorem count_eq {x : Effect} (h : Grows p o o₁) (hx : ¬p x) : o₁.log.count x = o.log.count x := by
  obtain ⟨fs, hl, hp⟩ := h
  have : fs.count x = 0 := List.count_eq_zero.mpr fun hm => hx (hp x hm)
  simp [hl, this]

end Grows

/-! ## One lemma per handler -/

theorem grows_assignServant (k : Kernel) (o : Proc) (d : String) (j : Job) :
    Grows (fun e => ∃ q, e = .fork d q j) o (assignServant k o d j).1 := by
  rcases assignServant_cases k o d j with ⟨q, -, -, he⟩ | he <;> rw [he]
  · exact ⟨[.fork d q j], rfl, by simp⟩
  · exact .of_log rfl

theorem grows_forkAll (k : Kernel) (j : Job) :
    ∀ (o : Proc) (ss : List Servant),
      Grows (fun e => ∃ d q, e = .fork d q j) o (forkAll k j o ss).1
  | o, [] => .rfl'
  | o, s :: ss => by
    have ha := (grows_assignServant k o s.devname j).imp (r := fun e => ∃ d q, e = .fork d q j)
      fun e ⟨q, he⟩ => ⟨_, q, he⟩
    rcases hs : assignServant k o s.devname j with ⟨o', _ | p⟩ <;> rw [hs] at ha <;>
      simp only [forkAll, hs]
    · exact ha
    · exact ha.trans (grows_forkAll k j o' ss)

theorem grows_visitServant (k : Kernel) (m : Mission) (o : Proc) (s : Servant) :
    Grows (fun e => (m = .deploy ∧ IsDeploy e) ∨ (m = .callback ∧ ∃ q, e = .kill q)) o
      (visitServant k m o s).1 := by
  unfold visitServant
  split
  · split
    · next hm => exact .emit _ (.inr ⟨hm, _, rfl⟩)
    · exact .rfl'
  · split
    · next hm =>
      have := (grows_assignServant k o s.devname (.servant .fullJob)).imp
        (r := fun e => (m = .deploy ∧ IsDeploy e) ∨ (m = .callback ∧ ∃ q, e = .kill q))
        fun e ⟨q, he⟩ => .inl ⟨hm, _, q, he⟩
      split <;> simpa [*] using this
    · exact .rfl'

theorem grows_foreachServants (k : Kernel) (m : Mission) :
    ∀ (o : Proc) (ss : List Servant),
      Grows (fun e => (m = .deploy ∧ IsDeploy e) ∨ (m = .callback ∧ ∃ q, e = .kill q)) o
        (foreachServants k m o ss).1
  | o, [] => .rfl'
  | o, s :: ss => by
    simp only [foreachServants]
    split
    · exact grows_visitServant k m o s
    · exact (grows_visitServant k m o s).trans (grows_foreachServants k m _ ss)

theorem grows_restartServantByPid (k : Kernel) (o : Proc) (ss : List Servant) (p : Nat) :
    Grows IsDeploy o (restartServantByPid k o ss p).1 := by
  unfold restartServantByPid
  split
  · exact .rfl'
  · next s _ =>
    have := (grows_assignServant k o s.devname (.servant .fullJob)).imp (r := IsDeploy)
      fun e ⟨q, he⟩ => ⟨_, q, he⟩
    split <;> simpa [*] using this

/-- A reaped child in the steady loop may respawn a servant — and only when not exiting. -/
theorem grows_steadyReap (k : Kernel) (x : Bool) (o : Proc) (ss : List Servant) (p : Nat)
    (st : Status) : Grows (fun e => x = false ∧ IsDeploy e) o (steadyReap k x o ss p st).1 := by
  unfold steadyReap
  split
  · dsimp only
    split <;> exact .of_log rfl
  · next hx =>
    split
    · exact .rfl'
    · split
      · exact (grows_restartServantByPid k o ss p).imp fun e he => ⟨by simpa using hx, he⟩
      · exact .rfl'

theorem grows_startupReap (h : Host) (o : Proc) (a : List Servant × Tally) (p : Nat) (st : Status) :
    Grows (fun _ => False) o (startupReap h o a p st).1 := by
  unfold startupReap
  split
  · exact .rfl'
  · dsimp only
    split
    · split <;> exact .of_log rfl
    · exact .rfl'

theorem grows_waitLoop {α : Type} {P : Effect → Prop} {body : Proc → α → Nat → Status → Proc × α}
    (hb : ∀ o a pid st, Grows P o (body o a pid st).1) :
    ∀ (o : Proc) (a : α) (l : List (Nat × Status)), Grows P o (waitLoop body o a l).1
  | o, a, [] => .rfl'
  | o, a, (pid, st) :: rest => by
    unfold waitLoop
    split
    · exact .rfl'
    · split
      · exact ((Grows.of_log rfl).trans (hb (o.reap pid) a pid st)).trans
          (grows_waitLoop hb _ _ rest)
      · exact grows_waitLoop hb o a rest

/-- Leaving the startup loop makes the daemon, deploys the servants, arms the watchdog. -/
theorem grows_startupCheck (h : Host) (s : Inquisitor) :
    Grows (fun e => e = .makeDaemon ∨ e = .watchdogInit ∨ IsDeploy e) s.proc
      (startupCheck h s).proc := by
  unfold startupCheck
  have hf := ((Grows.emit (p := fun e => e = .makeDaemon ∨ e = .watchdogInit ∨ IsDeploy e)
    (o := s.proc) .makeDaemon (.inl rfl))).trans
      ((grows_foreachServants h.kernel .deploy _ s.servants).imp fun e he => by
        rcases he with ⟨-, he⟩ | ⟨h, -⟩
        · exact .inr (.inr he)
        · cases h)
  split
  · exact .rfl'
  · split
    · dsimp only
      split
      · exact hf
      · split
        · exact hf.trans (.emit _ (.inr (.inl rfl)))
        · exact hf
    · exact .of_log rfl

/-- `SERVANT_CALLBACK` only sends `SIGKILL`s: records and children stay as they are. -/
theorem foreachServants_callback (k : Kernel) : ∀ (o : Proc) (ss : List Servant),
    (foreachServants k .callback o ss).2 = ss ∧
      (foreachServants k .callback o ss).1.children = o.children ∧
      (foreachServants k .callback o ss).1.ending = o.ending ∧
      ∃ kills, (foreachServants k .callback o ss).1.log = o.log ++ kills ∧
        ∀ e ∈ kills, ∃ p, e = .kill p
  | o, [] => ⟨rfl, rfl, rfl, [], (List.append_nil _).symm, by simp⟩
  | o, s :: ss => by
    have hv : visitServant k .callback o s =
        (if s.pid ≠ 0 ∧ o.alive k s.pid then o.emit (.kill s.pid) else o, s) := by
      unfold visitServant; split <;> simp
    obtain ⟨o₁, hv1, hc1, he1, k1, hk1, hk1'⟩ : ∃ o₁, visitServant k .callback o s = (o₁, s) ∧
        o₁.children = o.children ∧ o₁.ending = o.ending ∧ ∃ kills, o₁.log = o.log ++ kills ∧
          ∀ e ∈ kills, ∃ p, e = .kill p := by
      rw [hv]; split
      · exact ⟨_, rfl, rfl, rfl, [.kill s.pid], rfl, by simp⟩
      · exact ⟨_, rfl, rfl, rfl, [], by simp, by simp⟩
    simp only [foreachServants, hv1]
    split
    · exact ⟨rfl, hc1, he1, k1, hk1, hk1'⟩
    · obtain ⟨h2, hc2, he2, k2, hk2, hk2'⟩ := foreachServants_callback k o₁ ss
      refine ⟨by simp [h2], hc2.trans hc1, he2.trans he1, k1 ++ k2, by simp [hk2, hk1], ?_⟩
      intro e he
      rcases List.mem_append.mp he with he | he
      · exact hk1' e he
      · exact hk2' e he

/-- The startup loop forks nothing and kills nothing: its reaps show nothing, and the loop test
makes the daemon, deploys and arms the watchdog. -/
theorem grows_startupStep (h : Host) (s : Inquisitor) (sig : Signal) :
    Grows (fun e => e = .makeDaemon ∨ e = .watchdogInit ∨ IsDeploy e) s.proc
      (startupStep h s sig).proc := by
  cases sig with
  | chld l =>
    exact ((grows_waitLoop (grows_startupReap h) _ _ l).imp fun _ h => h.elim).trans
      (grows_startupCheck h _)
  | _ => exact grows_startupCheck h s

/-- The `SIG_EXITREQ` handler shows `SIGKILL`s and the magic close only. -/
theorem grows_exitreq (k : Kernel) (s : Inquisitor) :
    Grows (fun e => e = .watchdogClose ∨ ∃ q, e = .kill q) s.proc
      (steadyStep k s .exitreq).proc := by
  obtain ⟨-, -, -, kills, hk, hkill⟩ := foreachServants_callback k s.proc s.servants
  refine ⟨kills ++ [.watchdogClose], by simp [steadyStep, hk], fun e he => ?_⟩
  rcases List.mem_append.mp he with he | he
  · exact .inr (hkill e he)
  · exact .inl (List.eq_of_mem_singleton he)

/-- Outside `SIG_EXITREQ` the steady loop shows tickles and deploys only. -/
theorem grows_steadyStep (k : Kernel) (s : Inquisitor) {sig : Signal} (hsig : sig ≠ .exitreq) :
    Grows (fun e => e = .watchdogTickle ∨ IsDeploy e) s.proc (steadyStep k s sig).proc := by
  cases sig with
  | exitreq => exact absurd rfl hsig
  | chld l =>
    exact (grows_waitLoop (grows_steadyReap k s.exiting) _ _ l).imp fun _ he => .inr he.2
  | liveness p =>
    simp only [steadyStep]
    split
    · exact .rfl'
    · split
      · exact .emit _ (.inl rfl)
      · exact .rfl'
  | usr1 =>
    have hf := (Grows.emit (p := fun e => e = .watchdogTickle ∨ IsDeploy e) (o := s.proc)
      .watchdogTickle (.inl rfl)).trans ((grows_foreachServants k .deploy _ s.servants).imp
        fun e he => by
          rcases he with ⟨-, he⟩ | ⟨h, -⟩
          · exact .inr he
          · cases h)
    simp only [steadyStep]
    split
    · exact .rfl'
    · split
      · exact hf
      · exact hf.trans (.emit _ (.inl rfl))
  | test => exact .rfl'
  | usr2 => exact .rfl'

end Sbd
