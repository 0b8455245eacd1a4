import Mathlib.Data.List.Basic

/-!
# A servant and its slot

Each servant polls its own mailbox slot: at the head of its main loop it sleeps, exits if its
parent is gone, and `mbox_read`s the slot; it then dispatches on the command byte, enacting a
`SBD_MSG_RESET` or `SBD_MSG_OFF`, forwarding `SBD_MSG_EXIT` as `SIG_EXITREQ`, and clearing the slot
with an `mbox_write` of a zeroed mailbox for `SBD_MSG_TEST` and unknown commands. Peers write
commands into the slot at any moment, a full sector at a time.

## The window

Read and clearing write are two disk operations. A peer's write that lands between them is
overwritten unread: `reset_lost_in_window` loses a `SBD_MSG_RESET` so. `Watched` adds the history
variable the property needs — whether a peer has written since the servant's last read — and
`servant_overwrites_only_in_window` shows that this is the only way a command is lost: every
overwrite by the servant follows a read that returned `SBD_MSG_TEST` or an unknown command, and
destroys that very command unless a peer wrote after the read.

## No act without its command

The converse safety: the slot only ever holds `0` or a byte some peer wrote, so the servant
enacts only commands that were written (`servant_acts_only_on_written_commands`); a reset
needs a written `SBD_MSG_RESET` or a failed read.
-/

namespace Sbd

/-- `SBD_MSG_TEST`. Modelled from the spec: `sbd.h`, which defines the command codes
`0=clear, 1=TEST, 2=RESET, 3=OFF, 4=EXIT`, is not part of the source. -/
def sbdMsgTest : Int := 1

/-- `SBD_MSG_RESET`. Modelled from the spec, as `sbdMsgTest`. -/
def sbdMsgReset : Int := 2

/-- `SBD_MSG_OFF`. Modelled from the spec, as `sbdMsgTest`. -/
def sbdMsgOff : Int := 3

/-- `SBD_MSG_EXIT`. Modelled from the spec, as `sbdMsgTest`. -/
def sbdMsgExit : Int := 4

/-- What a servant's main loop does outside its slot. -/
inductive Act where
  | sigTest
  | sigExitreq
  | sigLiveness
  | doReset
  | doOff
  | exit0
  deriving DecidableEq, Repr

/-- Where the servant's main loop is: at its head, before `mbox_read`; after it, holding the
command byte read; or ended (exited, or the node reset or powered off). -/
inductive Pc where
  | head
  | read (cmd : Int)
  | ended
  deriving DecidableEq, Repr

/-- A servant's slot and main loop. -/
structure Mailbox where
  /-- The `cmd` byte of the slot on disk. -/
  slot : Int
  pc : Pc
  acts : List Act
  deriving DecidableEq, Repr

/-- After `slot_allocate` and the `mbox_write` of a zeroed mailbox that precede the loop. -/
def Mailbox.init : Mailbox := ⟨0, .head, []⟩

/-- One step of the servant's main loop. At the head: `getppid() == 1` exits 0, a failed
`mbox_read` calls `do_reset`, and otherwise the read takes the slot's command. After the read:
the `switch` on `s_mbox->cmd > 0` and `SIG_LIVENESS`. -/
def servantStep (orphan readFails : Bool) (b : Mailbox) : Mailbox :=
  match b.pc with
  | .ended => b
  | .head =>
    if orphan then { b with pc := .ended, acts := b.acts ++ [.exit0] }
    else if readFails then { b with pc := .ended, acts := b.acts ++ [.doReset] }
    else { b with pc := .read b.slot }
  | .read cmd =>
    if cmd > 0 then
      if cmd = sbdMsgTest then ⟨0, .head, b.acts ++ [.sigTest, .sigLiveness]⟩
      else if cmd = sbdMsgReset then { b with pc := .ended, acts := b.acts ++ [.doReset] }
      else if cmd = sbdMsgOff then { b with pc := .ended, acts := b.acts ++ [.doOff] }
      else if cmd = sbdMsgExit then { b with pc := .head, acts := b.acts ++ [.sigExitreq, .sigLiveness] }
      else ⟨0, .head, b.acts ++ [.sigLiveness]⟩
    else { b with pc := .head, acts := b.acts ++ [.sigLiveness] }

/-- What can happen next: the servant's step, or a peer's write of any command. -/
inductive MboxEvent where
  | servant (orphan readFails : Bool)
  | peer (cmd : Int)
  deriving DecidableEq, Repr

def mboxStep (b : Mailbox) : MboxEvent → Mailbox
  | .servant o r => servantStep o r b
  | .peer c => { b with slot := c }

/-- A command the servant clears the slot after: `SBD_MSG_TEST`, or none it knows. -/
def Clearing (cmd : Int) : Prop :=
  cmd = sbdMsgTest ∨ (0 < cmd ∧ cmd ≠ sbdMsgReset ∧ cmd ≠ sbdMsgOff ∧ cmd ≠ sbdMsgExit)

/-- The `switch` after a read of `cmd`: what each branch leaves. -/
theorem servantStep_read_cases (o r : Bool) (slot cmd : Int) (acts : List Act) :
    let b := servantStep o r ⟨slot, .read cmd, acts⟩
    (cmd = sbdMsgTest ∧ b = ⟨0, .head, acts ++ [.sigTest, .sigLiveness]⟩) ∨
    (cmd = sbdMsgReset ∧ b = ⟨slot, .ended, acts ++ [.doReset]⟩) ∨
    (cmd = sbdMsgOff ∧ b = ⟨slot, .ended, acts ++ [.doOff]⟩) ∨
    (cmd = sbdMsgExit ∧ b = ⟨slot, .head, acts ++ [.sigExitreq, .sigLiveness]⟩) ∨
    (Clearing cmd ∧ b = ⟨0, .head, acts ++ [.sigLiveness]⟩) ∨
    (cmd ≤ 0 ∧ b = ⟨slot, .head, acts ++ [.sigLiveness]⟩) := by
  dsimp only [servantStep]
  by_cases h0 : cmd > 0
  · rw [if_pos h0]
    by_cases ht : cmd = sbdMsgTest
    · exact .inl ⟨ht, if_pos ht⟩
    rw [if_neg ht]
    by_cases hr : cmd = sbdMsgReset
    · exact .inr (.inl ⟨hr, if_pos hr⟩)
    rw [if_neg hr]
    by_cases hf : cmd = sbdMsgOff
    · exact .inr (.inr (.inl ⟨hf, if_pos hf⟩))
    rw [if_neg hf]
    by_cases he : cmd = sbdMsgExit
    · exact .inr (.inr (.inr (.inl ⟨he, if_pos he⟩)))
    exact .inr (.inr (.inr (.inr (.inl ⟨.inr ⟨h0, hr, hf, he⟩, if_neg he⟩))))
  · exact .inr (.inr (.inr (.inr (.inr ⟨by omega, if_neg h0⟩))))

/-- The servant writes the slot only right after a read that returned a clearing command. -/
theorem servantStep_slot (o r : Bool) (b : Mailbox) (hw : (servantStep o r b).slot ≠ b.slot) :
    ∃ m, b.pc = .read m ∧ Clearing m := by
  obtain ⟨slot, pc, acts⟩ := b
  cases pc with
  | ended => exact absurd rfl hw
  | head => cases o <;> cases r <;> exact absurd rfl hw
  | read m =>
    refine ⟨m, rfl, ?_⟩
    rcases servantStep_read_cases o r slot m acts with
      ⟨h, -⟩ | ⟨-, h⟩ | ⟨-, h⟩ | ⟨-, h⟩ | ⟨h, -⟩ | ⟨-, h⟩
    · exact .inl h
    all_goals first | exact h | (rw [h] at hw; exact absurd rfl hw)

/-! ## The history variable -/

/-- The servant and its slot, with whether a peer has written the slot since the servant's last
`mbox_read`. -/
structure Watched where
  box : Mailbox
  peerWrote : Bool
  deriving DecidableEq, Repr

/-- A step of the mailbox, keeping the history variable: a peer's write sets it, the servant's
read clears it. -/
def Watched.step (w : Watched) : MboxEvent → Watched
  | .peer c => ⟨mboxStep w.box (.peer c), true⟩
  | .servant o r => ⟨mboxStep w.box (.servant o r), if w.box.pc = .head then false else w.peerWrote⟩

/-- The watched run of `evs` from the loop's start. -/
def watch (evs : List MboxEvent) : Watched := evs.foldl Watched.step ⟨Mailbox.init, false⟩

/-- The history variable only watches: the mailbox of a watched run is the mailbox's run. -/
theorem watch_box (evs : List MboxEvent) : (watch evs).box = evs.foldl mboxStep Mailbox.init := by
  suffices ∀ w : Watched, (evs.foldl Watched.step w).box = evs.foldl mboxStep w.box from this _
  induction evs with
  | nil => exact fun _ => rfl
  | cons e evs ih => exact fun w => (ih (w.step e)).trans (by cases e <;> rfl)

/-- Until a peer writes, the slot holds what the servant last read. -/
def Watched.Consistent (w : Watched) : Prop :=
  ∀ m, w.box.pc = .read m → w.peerWrote = false → w.box.slot = m

theorem Watched.Consistent.step {w : Watched} (hw : w.Consistent) (e : MboxEvent) :
    (w.step e).Consistent := by
  intro m hpc hpw
  obtain ⟨⟨slot, pc, acts⟩, pw⟩ := w
  cases e with
  | peer c => cases hpw
  | servant o r =>
    cases pc with
    | ended => exact hw m hpc hpw
    | head => cases o <;> cases r <;> cases hpc; rfl
    | read cmd =>
      -- after a read the loop is never at a read
      simp only [Watched.step, mboxStep] at hpc
      rcases servantStep_read_cases o r slot cmd acts with
        ⟨-, h⟩ | ⟨-, h⟩ | ⟨-, h⟩ | ⟨-, h⟩ | ⟨-, h⟩ | ⟨-, h⟩ <;> simp [h] at hpc

theorem consistent_watch (evs : List MboxEvent) : (watch evs).Consistent := by
  suffices ∀ w : Watched, w.Consistent → (evs.foldl Watched.step w).Consistent from
    this _ fun _ h _ => by cases h
  induction evs with
  | nil => exact fun _ h => h
  | cons e evs ih => exact fun w h => ih _ (h.step e)

/-- **Commands are lost only in the window.** Along every interleaving of the servant's loop with
peers' writes, whenever the servant's step overwrites the slot it has just read a clearing
command, and what it overwrites is that command unless a peer wrote after the read. -/
theorem servant_overwrites_only_in_window (evs : List MboxEvent) (o r : Bool)
    (hw : (mboxStep (watch evs).box (.servant o r)).slot ≠ (watch evs).box.slot) :
    ∃ m, (watch evs).box.pc = .read m ∧ Clearing m ∧
      ((watch evs).box.slot = m ∨ (watch evs).peerWrote = true) := by
  obtain ⟨m, hpc, hc⟩ := servantStep_slot o r _ hw
  refine ⟨m, hpc, hc, ?_⟩
  cases hp : (watch evs).peerWrote
  · exact .inl (consistent_watch evs m hpc hp)
  · exact .inr rfl

/-- A test message, read and cleared. -/
theorem servant_overwrites_test :
    let evs := [MboxEvent.peer sbdMsgTest, .servant false false]
    (mboxStep (watch evs).box (.servant false false)).slot ≠ (watch evs).box.slot ∧
      ∃ m, (watch evs).box.pc = .read m ∧ Clearing m ∧
        ((watch evs).box.slot = m ∨ (watch evs).peerWrote = true) :=
  ⟨by decide, servant_overwrites_only_in_window _ false false (by decide)⟩

/-- A `SBD_MSG_RESET` written between the servant's read of a `SBD_MSG_TEST` and its clearing
write is overwritten unread; the servant goes on polling a cleared slot and never resets. -/
theorem reset_lost_in_window :
    let before := [MboxEvent.peer sbdMsgTest, .servant false false, .peer sbdMsgReset].foldl
      mboxStep Mailbox.init
    let after := [MboxEvent.servant false false, .servant false false, .servant false false].foldl
      mboxStep before
    before.pc = .read sbdMsgTest ∧ before.slot = sbdMsgReset ∧
      (mboxStep before (.servant false false)).slot = 0 ∧
      after.pc = .head ∧ after.slot = 0 ∧ Act.doReset ∉ after.acts := by
  decide

/-! ## No act without its command -/

/-- What has to be in the run `evs` for the servant to have performed an act: the command it
enacts written by a peer, or for a reset a failed `mbox_read` instead. -/
def Act.causedBy (evs : List MboxEvent) : Act → Prop
  | .sigTest => .peer sbdMsgTest ∈ evs
  | .sigExitreq => .peer sbdMsgExit ∈ evs
  | .doReset => .peer sbdMsgReset ∈ evs ∨ .servant false true ∈ evs
  | .doOff => .peer sbdMsgOff ∈ evs
  | .sigLiveness => True
  | .exit0 => True

theorem Act.causedBy.mono {evs : List MboxEvent} {a : Act} (h : a.causedBy evs) (e : MboxEvent) :
    a.causedBy (evs ++ [e]) := by
  cases a with
  | doReset => exact h.imp (List.mem_append_left _) (List.mem_append_left _)
  | sigLiveness | exit0 => trivial
  | _ => exact List.mem_append_left _ h

/-- Every byte the servant can see came from a peer, and every act it performed had its cause. -/
structure Caused (evs : List MboxEvent) (b : Mailbox) : Prop where
  /-- The slot holds `0` or a command a peer wrote. -/
  slot : b.slot = 0 ∨ .peer b.slot ∈ evs
  /-- So does the byte the servant last read. -/
  read : ∀ m, b.pc = .read m → m = 0 ∨ .peer m ∈ evs
  /-- Every act so far had its cause. -/
  acts : ∀ a ∈ b.acts, a.causedBy evs

theorem Caused.mono {evs : List MboxEvent} {b : Mailbox} (hc : Caused evs b) (e : MboxEvent) :
    Caused (evs ++ [e]) b :=
  ⟨hc.slot.imp_right (List.mem_append_left _), fun m hm => (hc.read m hm).imp_right
    (List.mem_append_left _), fun a ha => (hc.acts a ha).mono e⟩

/-- A servant step that sets the slot and the loop's place, and appends acts, keeps the
invariant if what it sets and appends has its cause. -/
theorem Caused.append {evs : List MboxEvent} {b : Mailbox} (hc : Caused evs b) {slot : Int}
    {pc : Pc} (hslot : slot = 0 ∨ .peer slot ∈ evs)
    (hpc : ∀ m, pc = .read m → m = 0 ∨ .peer m ∈ evs)
    {new : List Act} (hnew : ∀ a ∈ new, a.causedBy evs) : Caused evs ⟨slot, pc, b.acts ++ new⟩ :=
  ⟨hslot, hpc, List.forall_mem_append.mpr ⟨hc.acts, hnew⟩⟩

theorem Caused.step {evs : List MboxEvent} {b : Mailbox} (hc : Caused evs b) (e : MboxEvent) :
    Caused (evs ++ [e]) (mboxStep b e) := by
  have hm := hc.mono e
  cases e with
  | peer c => exact ⟨.inr (List.mem_append_right _ (List.mem_singleton_self _)), hm.read, hm.acts⟩
  | servant o r =>
    obtain ⟨slot, pc, acts⟩ := b
    cases pc with
    | ended => exact hm
    | head =>
      cases o
      · cases r
        · exact ⟨hm.slot, fun m h => by cases h; exact hm.slot, hm.acts⟩
        · -- the failed read
          exact hm.append hm.slot (by rintro _ ⟨⟩) (List.forall_mem_singleton.mpr
            (.inr (List.mem_append_right _ (List.mem_singleton_self _))))
      · exact hm.append hm.slot (by rintro _ ⟨⟩) (List.forall_mem_singleton.mpr trivial)
    | read cmd =>
      -- a positive byte read is a peer's command
      have hw : 0 < cmd → .peer cmd ∈ evs ++ [.servant o r] := fun hpos =>
        (hm.read cmd rfl).resolve_left (by omega)
      have hl : ∀ a ∈ [Act.sigLiveness], a.causedBy (evs ++ [.servant o r]) :=
        List.forall_mem_singleton.mpr trivial
      show Caused _ (servantStep o r ⟨slot, .read cmd, acts⟩)
      rcases servantStep_read_cases o r slot cmd acts with
        ⟨rfl, h⟩ | ⟨rfl, h⟩ | ⟨rfl, h⟩ | ⟨rfl, h⟩ | ⟨-, h⟩ | ⟨-, h⟩ <;> rw [h]
      · exact hm.append (.inl rfl) (by rintro _ ⟨⟩)
          (List.forall_mem_cons.mpr ⟨hw (by decide), hl⟩)
      · exact hm.append hm.slot (by rintro _ ⟨⟩)
          (List.forall_mem_singleton.mpr (.inl (hw (by decide))))
      · exact hm.append hm.slot (by rintro _ ⟨⟩) (List.forall_mem_singleton.mpr (hw (by decide)))
      · exact hm.append hm.slot (by rintro _ ⟨⟩) (List.forall_mem_cons.mpr ⟨hw (by decide), hl⟩)
      · exact hm.append (.inl rfl) (by rintro _ ⟨⟩) hl
      · exact hm.append hm.slot (by rintro _ ⟨⟩) hl

theorem caused_run (evs : List MboxEvent) : Caused evs (evs.foldl mboxStep Mailbox.init) := by
  induction evs using List.reverseRecOn with
  | nil => exact ⟨.inl rfl, fun _ h => (nomatch h), fun _ h => (nomatch h)⟩
  | append_singleton evs e ih => simpa only [List.foldl_append, List.foldl_cons,
      List.foldl_nil] using ih.step e

/-- A step only appends to what the servant did. -/
theorem acts_subset_mboxStep (b : Mailbox) (e : MboxEvent) : b.acts ⊆ (mboxStep b e).acts := by
  cases e with
  | peer c => exact List.Subset.refl _
  | servant o r =>
    obtain ⟨slot, pc, acts⟩ := b
    cases pc with
    | ended => exact List.Subset.refl _
    | head =>
      simp only [mboxStep, servantStep]
      split_ifs <;> simp
    | read cmd =>
      show acts ⊆ (servantStep o r ⟨slot, .read cmd, acts⟩).acts
      rcases servantStep_read_cases o r slot cmd acts with
        ⟨-, h⟩ | ⟨-, h⟩ | ⟨-, h⟩ | ⟨-, h⟩ | ⟨-, h⟩ | ⟨-, h⟩ <;> rw [h] <;> simp

/-- The loop reaches its `switch`, and so sends `SIG_LIVENESS`, only through a step that found
its parent alive and `mbox_read` returning. -/
theorem read_step {evs : List MboxEvent} {b : Mailbox}
    (hr : ∀ m, b.pc = .read m → .servant false false ∈ evs)
    (hl : Act.sigLiveness ∈ b.acts → .servant false false ∈ evs) (e : MboxEvent) :
    (∀ m, (mboxStep b e).pc = .read m → .servant false false ∈ evs ++ [e]) ∧
      (Act.sigLiveness ∈ (mboxStep b e).acts → .servant false false ∈ evs ++ [e]) := by
  have mono : ∀ {x : MboxEvent}, x ∈ evs → x ∈ evs ++ [e] := List.mem_append_left _
  cases e with
  | peer c => exact ⟨fun m h => mono (hr m h), fun h => mono (hl h)⟩
  | servant o r =>
    obtain ⟨slot, pc, acts⟩ := b
    cases pc with
    | ended => exact ⟨fun m h => mono (hr m h), fun h => mono (hl h)⟩
    | read cmd =>
      have := mono (hr cmd rfl)
      exact ⟨fun _ _ => this, fun _ => this⟩
    | head =>
      have hread : MboxEvent.servant o r ∈ evs ++ [.servant o r] := List.mem_append_right _
        (List.mem_singleton_self _)
      cases o <;> cases r
      · exact ⟨fun _ _ => hread, fun _ => hread⟩
      all_goals
        refine ⟨fun m h => by simp [mboxStep, servantStep] at h, fun h => mono (hl ?_)⟩
        simpa [mboxStep, servantStep] using h

theorem read_of_sigLiveness (evs : List MboxEvent)
    (h : Act.sigLiveness ∈ (evs.foldl mboxStep Mailbox.init).acts) :
    MboxEvent.servant false false ∈ evs := by
  have key : ∀ evs : List MboxEvent,
      (∀ m, (evs.foldl mboxStep Mailbox.init).pc = .read m → .servant false false ∈ evs) ∧
        (Act.sigLiveness ∈ (evs.foldl mboxStep Mailbox.init).acts →
          .servant false false ∈ evs) := by
    intro evs
    induction evs using List.reverseRecOn with
    | nil => exact ⟨fun _ h => (nomatch h), fun h => (nomatch h)⟩
    | append_singleton evs e ih =>
      simpa only [List.foldl_append, List.foldl_cons, List.foldl_nil] using read_step ih.1 ih.2 e
  exact (key evs).2 h

/-- **No act without its command.** Along every interleaving of the servant's loop with peers'
writes, the servant reports a test, forwards an exit request or powers the node off only after a
peer wrote that command into its slot, and resets the node only after a peer wrote
`SBD_MSG_RESET` or a read of the slot failed. -/
theorem servant_acts_only_on_written_commands (evs : List MboxEvent) :
    ∀ a ∈ (evs.foldl mboxStep Mailbox.init).acts, a.causedBy evs :=
  (caused_run evs).acts

/-- A `SBD_MSG_RESET` written, read and enacted. -/
theorem servant_resets_on_written_reset :
    let evs := [MboxEvent.peer sbdMsgReset, .servant false false, .servant false false]
    Act.doReset ∈ (evs.foldl mboxStep Mailbox.init).acts ∧ Act.doReset.causedBy evs :=
  ⟨by decide, servant_acts_only_on_written_commands _ _ (by decide)⟩

end Sbd
