import Rockling.Lib.Eventually
import Rockling.Rtl.Messible

/-!
# The documented use of the Messible

The introduction of `rtl/messible.py`: the device writes to `IN` as long as `STATUS.full` is `0` and
waits otherwise, and the host reads `OUT` if `STATUS.have` is `1`. A device that looks before each
byte, and not in the very clock after one (where `STATUS` does not show it yet), loses nothing; and
if both sides come again and again, the host ends up with the strings (`polling_delivers`).
-/

namespace Rockling

namespace Messible

/-! ## The device that waits -/

/-- What a clock of the bus is used for. -/
inductive Use where
  | nobody
  | deviceStatus
  | deviceIn
  | hostStatus
  | hostOut
  deriving DecidableEq, Repr

/-- The system, and whether the device has seen `full = 0` since its last byte. -/
structure Polling (σ : Type) where
  sys : Sys σ
  ready : Bool

namespace Polling

variable {σ : Type} (f : Fifo σ Byte)

/-- The device writes only if it has seen `full = 0`. A read of `STATUS` changes nothing. -/
def turn (p : Polling σ) : Use → Turn
  | .nobody => .nobody
  | .deviceStatus => .nobody
  | .deviceIn => if p.ready then .device else .nobody
  | .hostStatus => .hostStatus
  | .hostOut => .hostOut

/-- One clock. -/
def step (p : Polling σ) (use : Use) : Polling σ where
  sys := p.sys.step f (p.turn use)
  ready :=
    match use with
    | .deviceStatus => !(p.sys.regs.status f).1
    | .deviceIn => false
    | _ => p.ready

/-- The run of the strings in which the clocks are used by `uses`. -/
def run (strs : List CString) (uses : ℕ → Use) : ClockedRun (step f) :=
  .ofInputs (step f) ⟨.start f strs, false⟩ uses

/-- A byte that has been written is in the FIFO before the device looks again. -/
def Spaced (uses : ℕ → Use) : Prop := ∀ t, uses t = .deviceIn → uses (t + 1) ≠ .deviceStatus

/-! ## Nothing is lost -/

/-- There is room for the byte that the device may write, and for the one in flight. -/
structure Safe (p : Polling σ) : Prop where
  room : p.ready = true → p.sys.regs.re = false ∧ f.writable p.sys.regs.fifo = true
  arrives : p.sys.Arrives f

section Step

variable {f} {p : Polling σ} {use : Use}

theorem status_full : (!(p.sys.regs.status f).1) = f.writable p.sys.regs.fifo := by
  rw [Regs.status, Bool.not_not]

/-- Only a write of the device puts a byte in flight. -/
theorem re_step (h : use = .deviceIn → p.ready = false) :
    (p.step f use).sys.regs.re = false := by
  change (p.sys.access (p.turn use)).inWrite.isSome = false
  cases use with
  | deviceIn =>
    rw [turn, h rfl]
    rfl
  | hostOut =>
    rw [turn, Sys.access]
    split_ifs <;> rfl
  | nobody => rfl
  | deviceStatus => rfl
  | hostStatus => rfl

/-- Room stays while no byte is in flight. -/
theorem room_step (prompt : f.Prompt) (hre : p.sys.regs.re = false)
    (hroom : f.writable p.sys.regs.fifo = true) :
    f.writable (p.step f use).sys.regs.fifo = true := by
  change f.writable (f.step p.sys.regs.fifo p.sys.regs.re _ _) = true
  rw [hre]
  exact prompt.keeps _ _ _ hroom

theorem Safe.step (prompt : f.Prompt) (safe : p.Safe f)
    (spaced : use = .deviceStatus → p.sys.regs.re = false) : (p.step f use).Safe f := by
  have quiet : use ≠ .deviceIn → (p.step f use).sys.regs.re = false := by
    intro h
    exact re_step fun h' => absurd h' h
  refine ⟨fun hready => ?_, fun hre => ?_⟩
  · cases use with
    | deviceIn => cases hready
    | deviceStatus =>
      have hroom : f.writable p.sys.regs.fifo = true := status_full.symm.trans hready
      exact ⟨quiet (by decide), room_step prompt (spaced rfl) hroom⟩
    | nobody =>
      exact ⟨quiet (by decide), room_step prompt (safe.room hready).1 (safe.room hready).2⟩
    | hostStatus =>
      exact ⟨quiet (by decide), room_step prompt (safe.room hready).1 (safe.room hready).2⟩
    | hostOut =>
      exact ⟨quiet (by decide), room_step prompt (safe.room hready).1 (safe.room hready).2⟩
  · -- the byte in flight was written by a device that had seen room
    by_cases hin : use = .deviceIn ∧ p.ready = true
    · exact room_step prompt (safe.room hin.2).1 (safe.room hin.2).2
    · have hquiet := re_step (f := f) fun h => eq_false_of_ne_true fun h' => hin ⟨h, h'⟩
      rw [hquiet] at hre
      cases hre

end Step

section Run

variable {f} {strs : List CString} {uses : ℕ → Use} {t : ℕ}

/-- The system under the device that waits is one of the runs of the system. -/
theorem sys_run (t : ℕ) : ((run f strs uses).st t).sys =
    (Sys.run f strs fun t => ((run f strs uses).st t).turn (uses t)).st t := by
  induction t with
  | zero => rfl
  | succ t ih =>
    rw [(run f strs uses).next, (Sys.run f strs _).next, ← ih]
    rfl

theorem safe (prompt : f.Prompt) (spaced : Spaced uses) (t : ℕ) :
    ((run f strs uses).st t).Safe f := by
  induction t with
  | zero =>
    refine ⟨?_, ?_⟩
    · intro h
      cases h
    · intro h
      cases h
  | succ t ih =>
    rw [(run f strs uses).next]
    refine ih.step prompt fun hlook => ?_
    -- the clock before was no write of the device
    cases t with
    | zero => rfl
    | succ t =>
      rw [(run f strs uses).next]
      exact re_step fun hin => absurd hlook (spaced t hin)

/-- Every byte is somewhere on its way. -/
theorem held (prompt : f.Prompt) (spaced : Spaced uses) (t : ℕ) :
    ((run f strs uses).st t).sys.held f = strs.flatMap fun s => s.1 := by
  rw [sys_run]
  refine Sys.held_of_arrives fun k _ => ?_
  rw [← sys_run]
  exact (safe prompt spaced k).arrives

theorem looked (t : ℕ) : ((run f strs uses).st t).sys.Looked f := by
  rw [sys_run]
  exact Sys.looked t

end Run

/-! ## Everything arrives -/

/-- Nothing is between the device and the host. -/
def Empty (p : Polling σ) : Prop :=
  f.contents p.sys.regs.fifo = [] ∧ p.sys.regs.re = false

section Clock

variable {f} {p : Polling σ} {use : Use} {n : ℕ}

theorem reads_of_seen (hseen : p.sys.seen = true) :
    (p.step f .hostOut).sys.host.length = p.sys.host.length + 1 := by
  change (if p.sys.access .hostOut = .readOut then _ else _ : List Byte).length = _
  rw [Sys.access, if_pos hseen, if_pos rfl, List.length_append, List.length_singleton]

/-- Nothing else reads `OUT`. -/
theorem not_readOut (h : ¬ (use = .hostOut ∧ p.sys.seen = true)) :
    p.sys.access (p.turn use) ≠ .readOut := by
  cases use with
  | hostOut =>
    rw [turn, Sys.access, if_neg fun hseen => h ⟨rfl, hseen⟩]
    exact Access.noConfusion
  | deviceIn =>
    unfold turn
    split_ifs
    · rw [Sys.access]
      cases p.sys.pending with
      | nil => exact Access.noConfusion
      | cons c pending => exact Access.noConfusion
    · exact Access.noConfusion
  | nobody => exact Access.noConfusion
  | deviceStatus => exact Access.noConfusion
  | hostStatus => exact Access.noConfusion

theorem host_keeps (h : ¬ (use = .hostOut ∧ p.sys.seen = true)) :
    (p.step f use).sys.host = p.sys.host := if_neg (not_readOut h)

/-- A clock without a read of `OUT` only adds to the FIFO. -/
theorem contents_step (h : ¬ (use = .hostOut ∧ p.sys.seen = true)) :
    f.contents (p.step f use).sys.regs.fifo =
      f.contents p.sys.regs.fifo ++ p.sys.accepted f := by
  have hbus : (p.sys.access (p.turn use) == Access.readOut) = false := by
    simpa using not_readOut h
  change f.contents (f.step _ _ _ (p.sys.access (p.turn use) == Access.readOut)) = _
  rw [hbus, f.contents_write, Sys.accepted]

/-- A byte that is in the FIFO or on its way there is in the FIFO next, unless the host reads. -/
theorem fills (safe : p.Safe f) (hbyte : f.contents p.sys.regs.fifo ≠ [] ∨ p.sys.regs.re = true)
    (h : ¬ (use = .hostOut ∧ p.sys.seen = true)) :
    f.contents (p.step f use).sys.regs.fifo ≠ [] := by
  rw [contents_step h]
  rcases hbyte with held | hre
  · exact List.append_ne_nil_of_left_ne_nil held _
  · rw [Sys.accepted, hre, safe.arrives hre]
    exact List.append_ne_nil_of_right_ne_nil _ (List.cons_ne_nil _ _)

/-- A byte in the FIFO is on show next, unless the host reads. -/
theorem shows (prompt : f.Prompt) (held : f.contents p.sys.regs.fifo ≠ [])
    (h : ¬ (use = .hostOut ∧ p.sys.seen = true)) :
    f.readable (p.step f use).sys.regs.fifo = true := by
  have hbus : (p.sys.access (p.turn use) == Access.readOut) = false := by
    simpa using not_readOut h
  change f.readable (f.step _ _ _ (p.sys.access (p.turn use) == Access.readOut)) = true
  rw [hbus]
  exact prompt.shows _ _ _ held

theorem ready_step (hstatus : use ≠ .deviceStatus) (hin : use ≠ .deviceIn) :
    (p.step f use).ready = p.ready := by
  cases use with
  | deviceStatus => exact absurd rfl hstatus
  | deviceIn => exact absurd rfl hin
  | nobody => rfl
  | hostStatus => rfl
  | hostOut => rfl

/-- A device that has seen room writes its next byte. -/
theorem re_of_write (hready : p.ready = true) (hpending : p.sys.pending ≠ []) :
    (p.step f .deviceIn).sys.regs.re = true := by
  change (p.sys.access (p.turn .deviceIn)).inWrite.isSome = true
  rw [turn, if_pos hready, Sys.access, List.head?_eq_some_head hpending]
  rfl

/-- The host has not looked at a FIFO that holds nothing. -/
theorem not_seen (looked : p.sys.Looked f) (empty : p.Empty f) : p.sys.seen = false :=
  eq_false_of_ne_true fun hseen => f.contents_ne_nil _ (looked hseen) empty.1

/-- What is on show stays there. -/
theorem readable_step (hr : f.readable p.sys.regs.fifo = true)
    (h : ¬ (use = .hostOut ∧ p.sys.seen = true)) :
    f.readable (p.step f use).sys.regs.fifo = true := by
  have hbus : (p.sys.access (p.turn use) == Access.readOut) = false := by
    simpa using not_readOut h
  change f.readable (f.step _ _ _ (p.sys.access (p.turn use) == Access.readOut)) = true
  rw [hbus]
  exact f.stays _ _ _ hr

/-- What the host has seen changes only when it accesses the bus. -/
theorem seen_step (hstatus : use ≠ .hostStatus) (hout : use = .hostOut → p.sys.seen = false) :
    (p.step f use).sys.seen = p.sys.seen := by
  cases use with
  | hostStatus => exact absurd rfl hstatus
  | hostOut => exact (hout rfl).symm
  | deviceIn =>
    change (Sys.step f p.sys (if p.ready = true then .device else .nobody)).seen = _
    split_ifs <;> rfl
  | nobody => rfl
  | deviceStatus => rfl

/-- While the device has not written, nothing comes between it and the host. -/
theorem Empty.step (looked : p.sys.Looked f) (empty : p.Empty f)
    (h : use = .deviceIn → p.ready = false) :
    (p.step f use).Empty f ∧ (p.step f use).sys.host = p.sys.host ∧
      (p.step f use).sys.pending = p.sys.pending := by
  have hseen := not_seen looked empty
  have hread : ¬ (use = .hostOut ∧ p.sys.seen = true) := by
    rintro ⟨-, hseen'⟩
    rw [hseen] at hseen'
    cases hseen'
  refine ⟨⟨?_, re_step h⟩, host_keeps hread, ?_⟩
  · rw [contents_step hread, empty.1, Sys.accepted, empty.2]
    rfl
  · change (if p.turn use = .device then _ else _) = _
    refine if_neg ?_
    cases use with
    | deviceIn =>
      rw [turn, h rfl]
      exact Turn.noConfusion
    | nobody => exact Turn.noConfusion
    | deviceStatus => exact Turn.noConfusion
    | hostStatus => exact Turn.noConfusion
    | hostOut => exact Turn.noConfusion

end Clock

/-- Both sides come again and again. -/
structure Fair (uses : ℕ → Use) : Prop where
  deviceStatus : Recurs fun t => uses t = .deviceStatus
  deviceIn : Recurs fun t => uses t = .deviceIn
  hostStatus : Recurs fun t => uses t = .hostStatus
  hostOut : Recurs fun t => uses t = .hostOut

section Fair

variable {f} {strs : List CString} {uses : ℕ → Use} {t n : ℕ}

theorem run_succ (t : ℕ) :
    (run f strs uses).st (t + 1) = ((run f strs uses).st t).step f (uses t) := rfl

/-- The host has read `n` bytes in clock `t`. -/
def HasRead (f : Fifo σ Byte) (strs : List CString) (uses : ℕ → Use) (n t : ℕ) : Prop :=
  ((run f strs uses).st t).sys.host.length = n

/-- The next byte for the host is on show, and the host has looked or not. -/
structure Shown (f : Fifo σ Byte) (strs : List CString) (uses : ℕ → Use) (n : ℕ) (seen : Bool)
    (t : ℕ) : Prop where
  hasRead : HasRead f strs uses n t
  readable : f.readable ((run f strs uses).st t).sys.regs.fifo = true
  seen : ((run f strs uses).st t).sys.seen = seen

/-- A clock without a read of `OUT`. -/
theorem HasRead.keeps (h : HasRead f strs uses n t)
    (hread : ¬ (uses t = .hostOut ∧ ((run f strs uses).st t).sys.seen = true)) :
    HasRead f strs uses n (t + 1) := by
  unfold HasRead
  rw [run_succ, host_keeps hread]
  exact h

theorem HasRead.reads (h : HasRead f strs uses n t) (hout : uses t = .hostOut)
    (hseen : ((run f strs uses).st t).sys.seen = true) : HasRead f strs uses (n + 1) (t + 1) := by
  unfold HasRead at h ⊢
  rw [run_succ, hout, reads_of_seen hseen, h]

/-- Without an access of the host the byte stays on show. -/
theorem Shown.keeps {seen : Bool} (h : Shown f strs uses n seen t)
    (hstatus : uses t ≠ .hostStatus) (hout : uses t = .hostOut → seen = false) :
    Shown f strs uses n seen (t + 1) := by
  have hread : ¬ (uses t = .hostOut ∧ ((run f strs uses).st t).sys.seen = true) := by
    rintro ⟨hout', hseen⟩
    rw [h.seen, hout hout'] at hseen
    cases hseen
  refine ⟨h.hasRead.keeps hread, ?_, ?_⟩
  · rw [run_succ]
    exact readable_step h.readable hread
  · rw [run_succ, seen_step hstatus fun hout' => h.seen.trans (hout hout'), h.seen]

/-- The host sees the byte on show. -/
theorem Shown.looks {seen : Bool} (h : Shown f strs uses n seen t)
    (hstatus : uses t = .hostStatus) : Shown f strs uses n true (t + 1) := by
  have hread : ¬ (uses t = .hostOut ∧ ((run f strs uses).st t).sys.seen = true) := by
    rintro ⟨hout, -⟩
    rw [hstatus] at hout
    cases hout
  refine ⟨h.hasRead.keeps hread, ?_, ?_⟩
  · rw [run_succ]
    exact readable_step h.readable hread
  · rw [run_succ, hstatus]
    exact h.readable

/-- The host reads the byte that it has seen. -/
theorem Shown.read (fair : Fair uses) (h : Shown f strs uses n true t) :
    ∃ u, t < u ∧ HasRead f strs uses (n + 1) u := by
  refine fair.hostOut.ends (P := Shown f strs uses n true) ?_ ?_ h
  · intro u here hout
    by_cases hstatus : uses u = .hostStatus
    · exact here.looks hstatus
    · exact here.keeps hstatus fun h => absurd h hout
  · intro u here hout
    exact here.hasRead.reads hout here.seen

/-- The host sees and reads the byte on show. -/
theorem Shown.fetch (fair : Fair uses) {seen : Bool} (h : Shown f strs uses n seen t) :
    ∃ u, t < u ∧ HasRead f strs uses (n + 1) u := by
  cases seen with
  | true => exact h.read fair
  | false =>
    have looks : ∃ u, t < u ∧ Shown f strs uses n true u :=
      fair.hostStatus.ends (fun u here hstatus => here.keeps hstatus fun _ => rfl)
        (fun u here hstatus => here.looks hstatus) h
    obtain ⟨u, later, here⟩ := looks
    obtain ⟨v, later', there⟩ := here.read fair
    exact ⟨v, by omega, there⟩

/-- The host reads a byte that is in the FIFO. -/
theorem fetch_held (prompt : f.Prompt) (fair : Fair uses) (h : HasRead f strs uses n t)
    (held : f.contents ((run f strs uses).st t).sys.regs.fifo ≠ []) :
    ∃ u, t < u ∧ HasRead f strs uses (n + 1) u := by
  by_cases hread : uses t = .hostOut ∧ ((run f strs uses).st t).sys.seen = true
  · exact ⟨t + 1, Nat.lt_succ_self t, h.reads hread.1 hread.2⟩
  · have shown : Shown f strs uses n _ (t + 1) :=
      ⟨h.keeps hread, shows prompt held hread, rfl⟩
    obtain ⟨u, later, here⟩ := shown.fetch fair
    exact ⟨u, by omega, here⟩

/-- The host reads a byte that has been written. -/
theorem fetch_written (prompt : f.Prompt) (spaced : Spaced uses) (fair : Fair uses)
    (h : HasRead f strs uses n t)
    (written : f.contents ((run f strs uses).st t).sys.regs.fifo ≠ [] ∨
      ((run f strs uses).st t).sys.regs.re = true) :
    ∃ u, t < u ∧ HasRead f strs uses (n + 1) u := by
  by_cases hread : uses t = .hostOut ∧ ((run f strs uses).st t).sys.seen = true
  · exact ⟨t + 1, Nat.lt_succ_self t, h.reads hread.1 hread.2⟩
  · obtain ⟨u, later, here⟩ := fetch_held prompt fair (h.keeps hread)
      (fills (safe prompt spaced t) written hread)
    exact ⟨u, by omega, here⟩

/-- The device has the next byte, and has seen room for it or not. -/
structure Waiting (f : Fifo σ Byte) (strs : List CString) (uses : ℕ → Use) (n : ℕ) (ready : Bool)
    (t : ℕ) : Prop where
  hasRead : HasRead f strs uses n t
  empty : ((run f strs uses).st t).Empty f
  pending : ((run f strs uses).st t).sys.pending ≠ []
  ready : ((run f strs uses).st t).ready = ready

/-- The device goes on waiting. -/
theorem Waiting.keeps {ready : Bool} (h : Waiting f strs uses n ready t)
    (hin : uses t = .deviceIn → ready = false) :
    Waiting f strs uses n ((run f strs uses).st (t + 1)).ready (t + 1) := by
  have hidle (huse : uses t = .deviceIn) : ((run f strs uses).st t).ready = false :=
    h.ready.trans (hin huse)
  have hnext := h.empty.step (looked t) hidle
  refine ⟨?_, hnext.1, ?_, rfl⟩
  · unfold HasRead
    rw [run_succ, hnext.2.1]
    exact h.hasRead
  · rw [run_succ, hnext.2.2]
    exact h.pending

/-- The device sees that there is room. -/
theorem Waiting.looks (hdepth : 0 < f.depth) {ready : Bool} (h : Waiting f strs uses n ready t)
    (hstatus : uses t = .deviceStatus) : Waiting f strs uses n true (t + 1) := by
  have hroom : f.writable ((run f strs uses).st t).sys.regs.fifo = true := by
    refine f.room _ ?_
    rw [h.empty.1]
    exact hdepth
  have hready : ((run f strs uses).st (t + 1)).ready = true := by
    rw [run_succ, hstatus]
    exact status_full.trans hroom
  rw [← hready]
  refine h.keeps fun hin => ?_
  rw [hstatus] at hin
  cases hin

/-- The device that has seen room writes, and the host reads. -/
theorem Waiting.write (hdepth : 0 < f.depth) (prompt : f.Prompt) (spaced : Spaced uses)
    (fair : Fair uses) (h : Waiting f strs uses n true t) :
    ∃ u, t < u ∧ HasRead f strs uses (n + 1) u := by
  have writes : ∃ u, t < u ∧ HasRead f strs uses n u ∧
      ((run f strs uses).st u).sys.regs.re = true := by
    refine fair.deviceIn.ends (P := Waiting f strs uses n true) ?_ ?_ h
    · intro u here hin
      by_cases hstatus : uses u = .deviceStatus
      · exact here.looks hdepth hstatus
      · have hready : ((run f strs uses).st (u + 1)).ready = true := by
          rw [run_succ, ready_step hstatus hin, here.ready]
        rw [← hready]
        exact here.keeps fun h => absurd h hin
    · intro u here hin
      have hread : ¬ (uses u = .hostOut ∧ ((run f strs uses).st u).sys.seen = true) := by
        rintro ⟨hout, -⟩
        rw [hin] at hout
        cases hout
      refine ⟨here.hasRead.keeps hread, ?_⟩
      rw [run_succ, hin]
      exact re_of_write here.ready here.pending
  obtain ⟨u, later, here, hre⟩ := writes
  obtain ⟨v, later', there⟩ := fetch_written prompt spaced fair here (.inr hre)
  exact ⟨v, by omega, there⟩

/-- A byte that the device has not written reaches the host. -/
theorem Waiting.send (hdepth : 0 < f.depth) (prompt : f.Prompt) (spaced : Spaced uses)
    (fair : Fair uses) {ready : Bool} (h : Waiting f strs uses n ready t) :
    ∃ u, t < u ∧ HasRead f strs uses (n + 1) u := by
  cases ready with
  | true => exact h.write hdepth prompt spaced fair
  | false =>
    have looks : ∃ u, t < u ∧ Waiting f strs uses n true u := by
      refine fair.deviceStatus.ends (P := Waiting f strs uses n false) ?_ ?_ h
      · intro u here hstatus
        have hready : ((run f strs uses).st (u + 1)).ready = false := by
          by_cases hin : uses u = .deviceIn
          · rw [run_succ, hin]
            rfl
          · rw [run_succ, ready_step hstatus hin, here.ready]
        rw [← hready]
        exact here.keeps fun _ => rfl
      · intro u here hstatus
        exact here.looks hdepth hstatus
    obtain ⟨u, later, here⟩ := looks
    obtain ⟨v, later', there⟩ := here.write hdepth prompt spaced fair
    exact ⟨v, by omega, there⟩

/-- As long as the host has not read everything, it reads one more byte. -/
theorem reads_on (hdepth : 0 < f.depth) (prompt : f.Prompt) (spaced : Spaced uses)
    (fair : Fair uses) (h : HasRead f strs uses n t)
    (more : n < (strs.flatMap fun s => s.1).length) :
    ∃ u, t < u ∧ HasRead f strs uses (n + 1) u := by
  by_cases written : f.contents ((run f strs uses).st t).sys.regs.fifo ≠ [] ∨
      ((run f strs uses).st t).sys.regs.re = true
  · exact fetch_written prompt spaced fair h written
  · rw [not_or, not_not, Bool.not_eq_true] at written
    have waiting : Waiting f strs uses n ((run f strs uses).st t).ready t := by
      refine ⟨h, written, fun hpending => ?_, rfl⟩
      -- otherwise the host has read everything
      have hheld : ((run f strs uses).st t).sys.held f = strs.flatMap fun s => s.1 :=
        held prompt spaced t
      rw [Sys.held, Sys.inFlight, written.1, written.2, hpending] at hheld
      simp only [Bool.false_eq_true, if_false, List.append_nil] at hheld
      rw [← hheld, h] at more
      exact lt_irrefl n more
    exact waiting.send hdepth prompt spaced fair

/-- The host reads every number of bytes that there are. -/
theorem reads_all (hdepth : 0 < f.depth) (prompt : f.Prompt) (spaced : Spaced uses)
    (fair : Fair uses) (hn : n ≤ (strs.flatMap fun s => s.1).length) :
    ∃ t, HasRead f strs uses n t := by
  induction n with
  | zero => exact ⟨0, rfl⟩
  | succ n ih =>
    obtain ⟨t, here⟩ := ih (Nat.le_of_succ_le hn)
    obtain ⟨u, -, there⟩ := reads_on hdepth prompt spaced fair here hn
    exact ⟨u, there⟩

/-- What the host has read is the front of the strings. -/
theorem host_front (prompt : f.Prompt) (spaced : Spaced uses) (t : ℕ) :
    ((run f strs uses).st t).sys.host <+: strs.flatMap fun s => s.1 := by
  rw [← held prompt spaced t, Sys.held, List.append_assoc, List.append_assoc]
  exact List.prefix_append _ _

theorem host_mono {u : ℕ} (h : t ≤ u) :
    ((run f strs uses).st t).sys.host.length ≤ ((run f strs uses).st u).sys.host.length := by
  induction u, h using Nat.le_induction with
  | base => exact le_rfl
  | succ u _ ih =>
    refine ih.trans ?_
    rw [run_succ]
    change _ ≤
      (if ((run f strs uses).st u).sys.access _ = .readOut then _ else _ : List Byte).length
    split_ifs
    · rw [List.length_append]
      exact Nat.le_add_right _ _
    · exact le_rfl

end Fair

/-- The registers of `SyncFIFOBuffered` waste no clock. -/
theorem syncFifoBuffered_prompt (depth : ℕ) : (syncFifoBuffered depth).Prompt where
  keeps := by
    intro s din re h
    have hle := s.fifo.2
    have hroom : s.fifo.1.length ≠ depth := bne_iff_ne.mp h
    have hnext : (s.queueNext false din re).length ≤ s.fifo.1.length := by
      rw [Buffered.queueNext, Bool.false_and, if_neg Bool.false_ne_true, List.append_nil]
      split_ifs
      · rw [List.length_tail]
        exact Nat.sub_le _ _
      · exact le_rfl
    refine bne_iff_ne.mpr ?_
    change (s.queueNext false din re).length ≠ depth
    omega
  shows := by
    intro s we din h
    change (if s.moves false then true else if false then false else s.readable) = true
    cases hr : s.readable with
    | true => rw [if_neg Bool.false_ne_true, ite_self]
    | false =>
      -- the word is in the queue and moves
      have hqueue : s.fifo.1.isEmpty = false := by
        refine List.isEmpty_eq_false_iff.mpr fun hnil => h ?_
        change (if s.readable then [s.dout] else []) ++ s.fifo.1 = []
        rw [hr, hnil]
        rfl
      rw [Buffered.moves, hqueue, hr]
      rfl

/-- **The documented protocol delivers**, through every FIFO that wastes no clock, such as that of
the peripheral (`syncFifoBuffered_prompt`). If the device looks at `STATUS.full` before each byte,
but not in the clock after one, every byte is on its way or has been read at every time, in order;
and if both sides come again and again, the host ends up with the strings. -/
theorem polling_delivers {σ : Type} (f : Fifo σ Byte) (prompt : f.Prompt) (hdepth : 0 < f.depth)
    (strs : List CString) (uses : ℕ → Use) (spaced : Spaced uses) :
    (∀ t, ((run f strs uses).st t).sys.held f = strs.flatMap (fun s => s.1) ∧
      ((run f strs uses).st t).sys.host <+: strs.flatMap fun s => s.1) ∧
    (Fair uses → ∃ t, ∀ u, t ≤ u →
      ((run f strs uses).st u).sys.host = strs.flatMap fun s => s.1) := by
  refine ⟨fun t => ⟨held prompt spaced t, host_front prompt spaced t⟩, fun fair => ?_⟩
  obtain ⟨t, all⟩ :=
    reads_all hdepth prompt spaced fair (le_refl (strs.flatMap fun s => s.1).length)
  refine ⟨t, fun u later => (host_front prompt spaced u).eq_of_length_le ?_⟩
  exact all.ge.trans (host_mono later)

/-- The device and the host take turns, two clocks each. -/
def alternate (t : ℕ) : Use :=
  if t % 4 = 0 then .deviceStatus
  else if t % 4 = 1 then .deviceIn
  else if t % 4 = 2 then .hostStatus
  else .hostOut

/-- The greeting arrives through a FIFO with room for a single word. -/
theorem polling_delivers_greeting : ∃ t, ∀ u, t ≤ u →
    ((run (syncFifoBuffered 1) [Sys.greeting] alternate).st u).sys.host =
      [Sys.greeting].flatMap fun s => s.1 := by
  refine (polling_delivers (syncFifoBuffered 1) (syncFifoBuffered_prompt 1) Nat.zero_lt_one
    [Sys.greeting] alternate ?_).2 ⟨?_, ?_, ?_, ?_⟩
  · intro t h
    unfold alternate at h ⊢
    split_ifs at h ⊢ <;> first | omega | exact Use.noConfusion
  · exact fun t => ⟨4 * t, by omega, if_pos (by omega)⟩
  · intro t
    refine ⟨4 * t + 1, by omega, ?_⟩
    change alternate (4 * t + 1) = .deviceIn
    rw [alternate, if_neg (by omega), if_pos (by omega)]
  · intro t
    refine ⟨4 * t + 2, by omega, ?_⟩
    change alternate (4 * t + 2) = .hostStatus
    rw [alternate, if_neg (by omega), if_neg (by omega), if_pos (by omega)]
  · intro t
    refine ⟨4 * t + 3, by omega, ?_⟩
    change alternate (4 * t + 3) = .hostOut
    rw [alternate, if_neg (by omega), if_neg (by omega), if_neg (by omega)]

end Polling

end Messible

end Rockling
