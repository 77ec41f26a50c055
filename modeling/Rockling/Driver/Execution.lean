import Rockling.Driver.I2c
import Rockling.Rtl.Outcome

/-!
# The driver in front of the core

The CPU runs `i2c_init` and then one job after the other, each a program over calls of `i2c_tx_char`
and `i2c_rx_char`. It shares the clock with the core, executes at most one register access in a
clock, and lets as many clocks pass in between as it likes, but does nothing in the clock after a
write to `command` (`DriverRun`).

At every clock the CPU is in one of four stages of a call (`Stage`), and it can only write to TXR or
`command` in a clock in which the core rests (`Coupled`): so no bus behaviour lets the two sides
that write the command register collide, and the run is one of an enabled core with commands at rest
only (`DriverRun.enabled`, `DriverRun.polite`).
-/

namespace Rockling

namespace Driver

open RTLI2C

/-! ## The CPU -/

section

variable {α : Type}

/-- What is left of a program after the access `o`, made in front of the core `s`. The polling loop
goes on until the value it reads is not busy. -/
def advance (s : RTLI2C) : (o : RegOp) → (RegIface.Reply o → Prog RegIface α) → Prog RegIface α
  | .write _ _, k => k ()
  | .read reg, k => k (s.readCsr reg)
  | .readWhile reg busy, k =>
    if busy (s.readCsr reg) then .call (.readWhile reg busy) k else k (s.readCsr reg)

/-- The register write that a program begins with. -/
def writes : Prog RegIface α → Option (Csr × BitVec 32)
  | .call (.write reg v) _ => some (reg, v)
  | _ => none

/-- A program begins with a poll. -/
def polls : Prog RegIface α → Bool
  | .call (.readWhile _ _) _ => true
  | _ => false

end

/-- What the CPU has to do: the rest of `i2c_init`, or the rest of job `n`. -/
inductive Cpu (β : Type) where
  | init (rest : Prog RegIface Unit)
  | job (n : ℕ) (rest : Prog RegIface β)

/-- One access, or the change to the next job. -/
def Cpu.next {β : Type} (load : ℕ → Prog RegIface β) (s : RTLI2C) : Cpu β → Cpu β
  | .init (.ret _) => .job 0 (load 0)
  | .init (.call o k) => .init (advance s o k)
  | .job n (.ret _) => .job (n + 1) (load (n + 1))
  | .job n (.call o k) => .job n (advance s o k)

/-- The register write of the next access. -/
def Cpu.writes {β : Type} : Cpu β → Option (Csr × BitVec 32)
  | .init rest => Driver.writes rest
  | .job _ rest => Driver.writes rest

/-- The next access polls. -/
def Cpu.polls {β : Type} : Cpu β → Bool
  | .init rest => Driver.polls rest
  | .job _ rest => Driver.polls rest

/-- What a job has returned. -/
def Cpu.returned {β : Type} : Cpu β → Option (ℕ × β)
  | .job n (.ret x) => some (n, x)
  | _ => none

theorem Cpu.of_returned {β : Type} {c : Cpu β} {n : ℕ} {x : β}
    (returned : c.returned = some (n, x)) : c = .job n (.ret x) := by
  cases c with
  | init rest => cases returned
  | job m rest =>
    cases rest with
    | ret y =>
      cases returned
      rfl
    | call o k => cases returned

/-- A run of the core from power-on with the driver as the only one that accesses its registers. In
clock `t` the CPU makes its next access if `access t`. -/
structure DriverRun {β : Type} (prescale : BitVec 32) (jobs : ℕ → Prog ByteIface β) (r : Run) where
  access : ℕ → Bool
  cpu : ℕ → Cpu β
  powerOn : ∃ dout, r.st 0 = powerOn dout
  start : cpu 0 = .init (i2cInitWith prescale)
  next : ∀ t, cpu (t + 1) =
    if access t then (cpu t).next (fun n => (jobs n).translate byteImpl) (r.st t) else cpu t
  bus : ∀ t, (r.inp t).bus = if access t then (cpu t).writes else none
  delay : ∀ t v, (r.inp t).write .command = some v → access (t + 1) = false

/-! ## The stages of a call -/

/-- The command word of a call. -/
def ByteOp.word : ByteOp → CInt
  | .tx _ flags => txCommand flags
  | .rx flags => rxCommand flags

/-- Where the CPU is in a job: before a call or the return, about to write the command, polling, or
about to read RXR. -/
inductive Stage (β : Type) where
  | ready (p : Prog ByteIface β)
  | command (o : ByteOp) (k : ByteIface.Reply o → Prog ByteIface β)
  | polling (o : ByteOp) (k : ByteIface.Reply o → Prog ByteIface β)
  | fetch (status : CInt) (k : CInt × CInt → Prog ByteIface β)

/-- The poll reads `TIP`. -/
theorem extract_tip (s : RTLI2C) : csrExtract STATUS_TIP_OFFSET (s.readCsr .status) = s.tip := by
  simp [csrExtract, STATUS_TIP_OFFSET, RTLI2C.readCsr, RTLI2C.status, -BitVec.getLsbD_eq_getElem]

/-- The other two bits of the status that the driver looks at. -/
theorem status_bits (s : RTLI2C) :
    rxAck (s.readCsr .status) = s.byte.ackOut ∧ arbLost (s.readCsr .status) = s.arbLost := by
  constructor <;>
    simp [rxAck, arbLost, csrExtract, STATUS_RXACK_OFFSET, STATUS_ARBLOST_OFFSET, RTLI2C.readCsr,
      RTLI2C.status, -BitVec.getLsbD_eq_getElem]

namespace Stage

variable {β : Type}

/-- The stage after the last poll, which read `status`. -/
def afterPoll : (o : ByteOp) → (ByteIface.Reply o → Prog ByteIface β) → CInt → Stage β
  | .tx _ _, k, status => .ready (k status)
  | .rx _, k, status => .fetch status k

/-- The rest of the job after the last poll, which read `status`. -/
def polled : (o : ByteOp) → (ByteIface.Reply o → Prog ByteIface β) → CInt → Prog RegIface β
  | .tx _ _, k, status => (k status).translate byteImpl
  | .rx _, k, status => .call (.read .rxr) fun rxr : CInt => (k (status, rxr)).translate byteImpl

/-- The rest of the job at a stage. -/
def prog : Stage β → Prog RegIface β
  | .ready p => p.translate byteImpl
  | .command o k =>
    .call (.write .command o.word) fun _ =>
      .call (.readWhile .status (csrExtract STATUS_TIP_OFFSET)) (polled o k)
  | .polling o k => .call (.readWhile .status (csrExtract STATUS_TIP_OFFSET)) (polled o k)
  | .fetch status k => .call (.read .rxr) fun rxr : CInt => (k (status, rxr)).translate byteImpl

/-- The stage after an access in front of the core `s`. -/
def next (s : RTLI2C) : Stage β → Stage β
  | .ready (.ret x) => .ready (.ret x)
  | .ready (.call (.tx tx flags) k) => .command (.tx tx flags) k
  | .ready (.call (.rx flags) k) => .polling (.rx flags) k
  | .command o k => .polling o k
  | .polling o k => if s.tip then .polling o k else afterPoll o k (s.readCsr .status)
  | .fetch status k => .ready (k (status, s.readCsr .rxr))

/-- The register write of an access at this stage. -/
def writes : Stage β → Option (Csr × BitVec 32)
  | .ready (.call (.tx tx _) _) => some (.txr, tx &&& 0xff)
  | .ready (.call (.rx flags) _) => some (.command, rxCommand flags)
  | .command o _ => some (.command, o.word)
  | _ => none

/-- The job is over. -/
def isRet : Stage β → Bool
  | .ready (.ret _) => true
  | _ => false

theorem polled_eq (o : ByteOp) (k : ByteIface.Reply o → Prog ByteIface β) (status : CInt) :
    polled o k status = (afterPoll o k status).prog := by
  cases o <;> rfl

theorem writes_prog (g : Stage β) : Driver.writes g.prog = g.writes := by
  cases g with
  | ready p =>
    cases p with
    | ret x => rfl
    | call o k => cases o <;> rfl
  | _ => rfl

theorem isRet_of_prog {g : Stage β} {x : β} (ended : g.prog = .ret x) : g.isRet = true := by
  cases g with
  | ready p =>
    cases p with
    | ret y => rfl
    | call o k => cases o <;> cases ended
  | _ => cases ended

/-- An access takes the CPU from stage to stage. -/
theorem next_prog (load : ℕ → Prog RegIface β) (s : RTLI2C) (n : ℕ) {g : Stage β}
    (going : g.isRet = false) : (Cpu.job n g.prog).next load s = .job n (g.next s).prog := by
  cases g with
  | ready p =>
    cases p with
    | ret x => cases going
    | call o k => cases o <;> rfl
  | command o k => rfl
  | polling o k =>
    simp only [prog, Cpu.next, advance, next, extract_tip, polled_eq]
    split <;> rfl
  | fetch status k => rfl

/-- The job after one that is over. -/
theorem next_ret (load : ℕ → Prog RegIface β) (s : RTLI2C) (n : ℕ) {g : Stage β}
    (ended : g.isRet = true) : (Cpu.job n g.prog).next load s = .job (n + 1) (load (n + 1)) := by
  cases g with
  | ready p =>
    cases p with
    | ret x => rfl
    | call o k => cases ended
  | _ => cases ended

end Stage

/-! ## Booting -/

/-- The stages of `i2c_init` before the write that enables the core. -/
inductive Booting (prescale : BitVec 32) (s : RTLI2C) : Prog RegIface Unit → Prop
  | read : Booting prescale s (i2cInitWith prescale)
  | reset (newword : BitVec 32) : Booting prescale s
      (.call (.write .coreReset newword) fun _ =>
        .call (.write .prescale prescale) fun _ => .call (.write .control 0x80) .ret)
  | prescale : Booting prescale s
      (.call (.write .prescale prescale) fun _ => .call (.write .control 0x80) .ret)
  | control (value : s.prescale = prescale.setWidth 16) (re : s.coreResetRe = false) :
      Booting prescale s (.call (.write .control 0x80) .ret)

/-- A clock of `i2c_init` in which the CPU does nothing. -/
theorem Booting.pause {v : BitVec 32} {s : RTLI2C} {i : In} {rest : Prog RegIface Unit}
    (h : Booting v s rest)
    (quiet : ∀ reg, i.write reg = none) : Booting v (s.step i) rest := by
  cases h with
  | read => exact .read
  | reset newword => exact .reset newword
  | prescale => exact .prescale
  | control value re =>
    refine .control ?_ ?_
    · simpa [RTLI2C.step, quiet] using value
    · simp [RTLI2C.step, quiet]

/-- `i2c_init` is over. -/
def Cpu.booted {β : Type} : Cpu β → Bool
  | .init (.call _ _) => false
  | _ => true

/-- What a register access writes to `reg`. -/
def valueFor (reg : Csr) : Option (Csr × BitVec 32) → Option (BitVec 32)
  | some (reg', x) => if reg' = reg then some x else none
  | none => none

@[simp] theorem valueFor_none (reg : Csr) : valueFor reg none = none := rfl

@[simp] theorem valueFor_some (reg reg' : Csr) (x : BitVec 32) :
    valueFor reg (some (reg', x)) = if reg' = reg then some x else none := rfl

theorem write_eq (i : In) (reg : Csr) : i.write reg = valueFor reg i.bus := rfl

namespace DriverRun

variable {β : Type} {v : BitVec 32} {jobs : ℕ → Prog ByteIface β} {r : Run}

/-- What the core is given in a clock in which the CPU does nothing. -/
theorem write_of_pause (d : DriverRun v jobs r) {t : ℕ} (pause : d.access t = false) (reg : Csr) :
    (r.inp t).write reg = none := by
  simp [write_eq, d.bus, pause]

/-- What the core is given in a clock in which the CPU makes an access. -/
theorem write_of_access (d : DriverRun v jobs r) {t : ℕ} (acts : d.access t = true) (reg : Csr) :
    (r.inp t).write reg = valueFor reg (d.cpu t).writes := by
  rw [write_eq, d.bus, if_pos acts]

theorem next_of_pause (d : DriverRun v jobs r) {t : ℕ} (pause : d.access t = false) :
    d.cpu (t + 1) = d.cpu t := by
  simp [d.next, pause]

theorem next_of_access (d : DriverRun v jobs r) {t : ℕ} (acts : d.access t = true) :
    d.cpu (t + 1) = (d.cpu t).next (fun n => (jobs n).translate byteImpl) (r.st t) := by
  simp [d.next, acts]

/-- One clock at a stage of a job. -/
theorem stage_next (d : DriverRun v jobs r) {t n : ℕ} {g : Stage β}
    (cpu : d.cpu t = .job n g.prog) :
    d.cpu (t + 1) =
      if d.access t then
        if g.isRet then .job (n + 1) (Stage.ready (jobs (n + 1))).prog
        else .job n (g.next (r.st t)).prog
      else .job n g.prog := by
  rw [d.next, cpu]
  split
  next acts =>
    split
    next ended => exact Stage.next_ret _ _ _ ended
    next going => exact Stage.next_prog _ _ _ (eq_false_of_ne_true going)
  next => rfl

/-- The register write at a stage of a job. -/
theorem stage_write (d : DriverRun v jobs r) {t n : ℕ} {g : Stage β} (cpu : d.cpu t = .job n g.prog)
    (reg : Csr) :
    (r.inp t).write reg = if d.access t then valueFor reg g.writes else none := by
  split
  next acts =>
    rw [d.write_of_access acts, cpu, ← g.writes_prog]
    rfl
  next pause => exact d.write_of_pause (eq_false_of_ne_true pause) reg

/-- Where the driver is in a clock: `i2c_init` has not enabled the core yet, or has just done so, or
a job is at one of its stages. -/
inductive At (d : DriverRun v jobs r) (t : ℕ) : Prop
  | booting (rest : Prog RegIface Unit) (cpu : d.cpu t = .init rest)
      (boots : Booting v (r.st t) rest) (ena : (r.st t).ena = false)
  | booted (cpu : d.cpu t = .init (.ret ())) (on : (r.st t).On (v.setWidth 16).toNat)
  | stage (n : ℕ) (g : Stage β) (cpu : d.cpu t = .job n g.prog)
      (on : (r.st t).On (v.setWidth 16).toNat)

/-- An enabled core stays enabled while its configuration is not written. -/
theorem on_step {p : ℕ} {s : RTLI2C} {i : In} (on : s.On p) (control : i.write .control = none)
    (prescale : i.write .prescale = none) (coreReset : i.write .coreReset = none) :
    (s.step i).On p := by
  refine ⟨?_, ?_, ?_⟩
  · rw [step_ena_of_no_write control]
    exact on.ena
  · simp [RTLI2C.rst, RTLI2C.step, coreReset]
  · simpa [RTLI2C.step, prescale] using on.prescale

/-- A job leaves the configuration alone. -/
theorem stage_keeps_on (d : DriverRun v jobs r) {t n : ℕ} {g : Stage β}
    (cpu : d.cpu t = .job n g.prog) {p : ℕ} (on : (r.st t).On p) : (r.st (t + 1)).On p := by
  have only : ∀ reg, reg ≠ .txr → reg ≠ .command → (r.inp t).write reg = none := by
    intro reg txr command
    rw [d.stage_write cpu]
    cases g with
    | ready p =>
      cases p with
      | ret x => simp [Stage.writes]
      | call o k => cases o <;> simp [Stage.writes, txr.symm, command.symm]
    | _ => simp [Stage.writes, command.symm]
  rw [r.next]
  exact on_step on (only _ (by decide) (by decide)) (only _ (by decide) (by decide))
    (only _ (by decide) (by decide))

theorem at_step (d : DriverRun v jobs r) {t : ℕ} (h : d.At t) : d.At (t + 1) := by
  by_cases acts : d.access t = true
  · have cpu' := d.next_of_access acts
    cases h with
    | booting rest cpu boots ena =>
      have write := d.write_of_access acts
      rw [cpu] at cpu' write
      cases boots with
      | read =>
        have control : (r.inp t).write .control = none := by rw [write]; rfl
        refine .booting _ cpu' (.reset _) ?_
        rw [r.next, step_ena_of_no_write control, ena]
      | reset newword =>
        have control : (r.inp t).write .control = none := by rw [write]; rfl
        refine .booting _ cpu' .prescale ?_
        rw [r.next, step_ena_of_no_write control, ena]
      | prescale =>
        have control : (r.inp t).write .control = none := by rw [write]; rfl
        have prescale : (r.inp t).write .prescale = some v := by rw [write]; rfl
        have coreReset : (r.inp t).write .coreReset = none := by rw [write]; rfl
        refine .booting _ cpu' (.control ?_ ?_) ?_
        · simp [r.next, RTLI2C.step, prescale]
        · simp [r.next, RTLI2C.step, coreReset]
        · rw [r.next, step_ena_of_no_write control, ena]
      | control value re =>
        have control : (r.inp t).write .control = some 0x80 := by rw [write]; rfl
        have prescale : (r.inp t).write .prescale = none := by rw [write]; rfl
        have coreReset : (r.inp t).write .coreReset = none := by rw [write]; rfl
        refine .booted cpu' ⟨?_, ?_, ?_⟩
        · simp [r.next, RTLI2C.step, RTLI2C.ena, control]
        · simp [r.next, RTLI2C.step, RTLI2C.rst, coreReset]
        · simp [r.next, RTLI2C.step, prescale, value]
    | booted cpu on =>
      have write := d.write_of_access acts
      rw [cpu] at cpu' write
      refine .stage 0 (.ready (jobs 0)) cpu' ?_
      rw [r.next]
      exact on_step on (write _) (write _) (write _)
    | stage n g cpu on =>
      have on' := d.stage_keeps_on cpu on
      have next := d.stage_next cpu
      rw [if_pos acts] at next
      split at next
      · exact .stage _ _ next on'
      · exact .stage _ _ next on'
  · have pause := eq_false_of_ne_true acts
    have cpu' := d.next_of_pause pause
    have quiet := d.write_of_pause pause
    cases h with
    | booting rest cpu boots ena =>
      refine .booting rest (cpu'.trans cpu) ?_ ?_
      · rw [r.next]
        exact Booting.pause boots quiet
      · rw [r.next, step_ena_of_no_write (quiet _), ena]
    | booted cpu on =>
      refine .booted (cpu'.trans cpu) ?_
      rw [r.next]
      exact on_step on (quiet _) (quiet _) (quiet _)
    | stage n g cpu on =>
      exact .stage n g (cpu'.trans cpu) (d.stage_keeps_on cpu on)

theorem at_every (d : DriverRun v jobs r) (t : ℕ) : d.At t := by
  induction t with
  | zero =>
    obtain ⟨dout, start⟩ := d.powerOn
    refine .booting _ d.start .read ?_
    rw [start]
    simp [RTLI2C.ena, RTLI2C.powerOn]
  | succ t ih => exact d.at_step ih

/-- Until `i2c_init` is over the core is disabled and given no command. -/
theorem of_not_booted (d : DriverRun v jobs r) {t : ℕ} (early : (d.cpu t).booted = false) :
    ∃ rest, d.cpu t = .init rest ∧ Booting v (r.st t) rest ∧ (r.st t).ena = false ∧
      ∀ reg, reg = .txr ∨ reg = .command → (r.inp t).write reg = none := by
  cases d.at_every t with
  | booting rest cpu boots ena =>
    refine ⟨rest, cpu, boots, ena, fun reg which => ?_⟩
    by_cases acts : d.access t = true
    · rw [d.write_of_access acts, cpu]
      rcases which with rfl | rfl <;> cases boots <;> rfl
    · exact d.write_of_pause (eq_false_of_ne_true acts) _
  | booted cpu => rw [cpu] at early; cases early
  | stage n g cpu => rw [cpu] at early; cases early

/-- Afterwards the core is on. -/
theorem of_booted (d : DriverRun v jobs r) {t : ℕ} (late : (d.cpu t).booted = true) :
    (d.cpu t = .init (.ret ()) ∨ ∃ n g, d.cpu t = .job n (Stage.prog g)) ∧
      (r.st t).On (v.setWidth 16).toNat := by
  cases d.at_every t with
  | booting rest cpu boots => rw [cpu] at late; cases boots <;> cases late
  | booted cpu on => exact ⟨Or.inl cpu, on⟩
  | stage n g cpu on => exact ⟨Or.inr ⟨n, g, cpu⟩, on⟩

theorem booted_next (d : DriverRun v jobs r) {t : ℕ} (late : (d.cpu t).booted = true) :
    (d.cpu (t + 1)).booted = true := by
  rcases (d.of_booted late).1 with cpu | ⟨n, g, cpu⟩
  · rw [d.next, cpu]
    split <;> rfl
  · rw [d.stage_next cpu]
    split
    · split <;> rfl
    · rfl

/-- `i2c_init` comes to an end and leaves an enabled core, or never does. -/
theorem boots (d : DriverRun v jobs r) :
    (∀ t, (d.cpu t).booted = false) ∨
      ∃ t₀, EnabledRun (v.setWidth 16).toNat t₀ r ∧ d.cpu t₀ = .init (.ret ()) ∧
        ∀ t < t₀, (d.cpu t).booted = false := by
  by_cases some : ∃ t, (d.cpu t).booted = true
  · have early := fun t (before : t < Nat.find some) =>
      eq_false_of_ne_true (Nat.find_min some before)
    have late : ∀ t, Nat.find some ≤ t → (d.cpu t).booted = true := by
      intro t later
      induction t, later using Nat.le_induction with
      | base => exact Nat.find_spec some
      | succ t later ih => exact d.booted_next ih
    refine Or.inr ⟨Nat.find some, ⟨d.powerOn, fun t before => ?_, fun t later => ?_⟩, ?_, early⟩
    · obtain ⟨-, -, -, ena, quiet⟩ := d.of_not_booted (early t before)
      exact ⟨ena, quiet _ (Or.inr rfl)⟩
    · exact (d.of_booted (late t later)).2
    · rcases (d.of_booted (Nat.find_spec some)).1 with cpu | ⟨n, g, cpu⟩
      · exact cpu
      -- the first job follows the return of `i2c_init`
      · exfalso
        cases first : Nat.find some with
        | zero =>
          rw [first, d.start] at cpu
          cases cpu
        | succ t =>
          obtain ⟨rest, before, boots, -⟩ := d.of_not_booted (early t (by omega))
          rw [first, d.next, before] at cpu
          split at cpu
          · cases boots <;> cases cpu
          · cases cpu
  · exact Or.inl fun t => eq_false_of_ne_true fun booted => some ⟨t, booted⟩

/-! ## The core and the stages -/

/-- What the core does at a stage: it rests, except while the CPU polls. The first poll comes after
the clock in which the command is pending. -/
def Fits (s : RTLI2C) (access : Bool) : Stage β → Prop
  | .polling _ _ => s.InPhase .pending → access = false
  | _ => s.InPhase .resting

/-- What the core does while the CPU goes through its stages. -/
inductive Coupled (d : DriverRun v jobs r) (t : ℕ) : Prop
  | booted (cpu : d.cpu t = .init (.ret ())) (rest : (r.st t).InPhase .resting)
  | stage (n : ℕ) (g : Stage β) (cpu : d.cpu t = .job n g.prog)
      (fits : Fits (r.st t) (d.access t) g)

/-- A call asks for one transfer. -/
theorem isTransfer_word (o : ByteOp) : isTransfer o.word = true := by
  cases o with
  | tx _ flags =>
    obtain ⟨-, -, rd, wr⟩ := txCommand_fields flags
    rw [isTransfer, ByteOp.word, rd, wr]
    rfl
  | rx flags =>
    obtain ⟨-, -, rd, wr⟩ := rxCommand_fields flags
    rw [isTransfer, ByteOp.word, rd, wr]
    rfl

/-- TXR and the command register are written while the core rests, and a command is the word of a
call that is polled from the next clock on. -/
theorem Coupled.of_write {d : DriverRun v jobs r} {t : ℕ} (h : d.Coupled t) {reg : Csr}
    {x : BitVec 32} (write : (r.inp t).write reg = some x) :
    (r.st t).InPhase .resting ∧ (reg = .command → ∃ n o k, x = ByteOp.word o ∧
      d.cpu (t + 1) = .job n (Stage.polling o k).prog) := by
  by_cases acts : d.access t = true
  · cases h with
    | booted cpu rest =>
      rw [d.write_of_access acts, cpu] at write
      cases write
    | stage n g cpu fits =>
      have next := d.stage_next cpu
      rw [d.stage_write cpu, if_pos acts] at write
      rw [if_pos acts] at next
      cases g with
      | ready p =>
        cases p with
        | ret x => cases write
        | call o k =>
          refine ⟨fits, fun command => ?_⟩
          subst command
          cases o with
          | tx tx flags => cases write
          | rx flags =>
            cases write
            exact ⟨n, .rx flags, k, rfl, next⟩
      | command o k =>
        refine ⟨fits, fun command => ?_⟩
        subst command
        cases write
        exact ⟨n, o, k, rfl, next⟩
      | polling o k => cases write
      | fetch status k => cases write
  · rw [d.write_of_pause (eq_false_of_ne_true acts)] at write
    cases write

/-- The driver keeps to the rules of the core. -/
theorem Coupled.polite {d : DriverRun v jobs r} {t : ℕ} (h : d.Coupled t) :
    (r.st t).Polite (r.inp t) := by
  intro x write
  obtain ⟨rest, asks⟩ := h.of_write write
  obtain ⟨n, o, k, rfl, -⟩ := asks rfl
  exact ⟨rest.1, rest.2.1, rest.2.2.2.1, isTransfer_word o⟩

section

variable {p k a : ℕ} {line : Bool}

/-- One clock of the driver in front of the core. -/
theorem Coupled.step {d : DriverRun v jobs r} {t : ℕ} (h : d.Coupled t) (hp : 3 ≤ p)
    (on : (r.st t).On p) (sound : Sound p k a line (r.st t)) : d.Coupled (t + 1) := by
  obtain ⟨timed, inStep, phase, -, -⟩ := sound
  cases hw : (r.inp t).write .command with
  | some x =>
    obtain ⟨n, o, k, -, cpu⟩ := (h.of_write hw).2 rfl
    exact .stage n _ cpu fun _ => d.delay t x hw
  | none =>
    have stays : (r.st t).InPhase .resting → (r.st (t + 1)).InPhase .resting := by
      intro rest
      rw [r.next]
      exact (quiet_step inStep on hp timed rest.1 rest.2.1 hw).2
    have fresh : ¬ (r.st (t + 1)).InPhase .pending := by
      rw [r.next]
      exact not_pending_next inStep on hp timed phase hw
    cases h with
    | booted cpu rest =>
      by_cases acts : d.access t = true
      · have next := d.next_of_access acts
        rw [cpu] at next
        exact .stage 0 (.ready (jobs 0)) next (stays rest)
      · exact .booted ((d.next_of_pause (eq_false_of_ne_true acts)).trans cpu) (stays rest)
    | stage n g cpu fits =>
      have next := d.stage_next cpu
      by_cases acts : d.access t = true
      · have write := d.stage_write cpu .command
        rw [if_pos acts] at next write
        cases g with
        | ready p =>
          cases p with
          | ret x => exact .stage (n + 1) (.ready (jobs (n + 1))) next (stays fits)
          | call o k =>
            cases o with
            | tx tx flags => exact .stage n (.command (.tx tx flags) k) next (stays fits)
            | rx flags =>
              rw [hw] at write
              cases write
        | command o k =>
          rw [hw] at write
          cases write
        | polling o k =>
          have settled : ¬ (r.st t).InPhase .pending := fun pending => by
            rw [fits pending] at acts
            cases acts
          have next : d.cpu (t + 1) = .job n (if (r.st t).tip then Stage.polling o k
              else Stage.afterPoll o k ((r.st t).readCsr .status)).prog := next
          split at next
          next => exact .stage n _ next fun pending => absurd pending fresh
          next ended =>
            have rest := stays (resting_of_tip phase settled (eq_false_of_ne_true ended))
            refine .stage n _ next ?_
            cases o <;> exact rest
        | fetch status k => exact .stage n (.ready _) next (stays fits)
      · rw [if_neg acts] at next
        refine .stage n g next ?_
        cases g with
        | polling o k => exact fun pending => absurd pending fresh
        | _ => exact stays fits

end

/-- The core rests when `i2c_init` is over. -/
theorem rests_at_boot {p t₀ : ℕ} {hold : ℕ → Bool} (run : EnabledRun p t₀ r)
    (scl : Stretching r hold) : (r.st t₀).InPhase .resting := by
  obtain ⟨-, a, waiting⟩ := run.waiting scl t₀ le_rfl
  obtain ⟨t, rfl⟩ : ∃ t, t₀ = t + 1 := ⟨t₀ - 1, by have := run.pos; omega⟩
  obtain ⟨-, b, before⟩ := run.waiting scl t (by omega)
  refine ⟨waiting.command, waiting.dormant.idle, waiting.done, waiting.dormant.al, ?_⟩
  rw [r.next]
  exact tip_of_zero before.command

/-- **The driver and the core stay coupled**, and every clock is sound. -/
theorem coupled (d : DriverRun v jobs r) {p t₀ : ℕ} {hold : ℕ → Bool} (run : EnabledRun p t₀ r)
    (boot : d.cpu t₀ = .init (.ret ())) (hp : 3 ≤ p) (scl : Stretching r hold) {t : ℕ}
    (late : t₀ ≤ t) : d.Coupled t := by
  obtain ⟨high, a₀, waiting⟩ := run.waiting scl t₀ le_rfl
  have both : ∀ k, Sound p k (ageAt r t₀ a₀ k) (sclLine r (t₀ + k)) (r.st (t₀ + k)) ∧
      d.Coupled (t₀ + k) := by
    intro k
    induction k with
    | zero =>
      refine ⟨?_, .booted boot (rests_at_boot run scl)⟩
      rw [Nat.add_zero, high]
      exact waiting.sound run.cnt
    | succ k ih =>
      obtain ⟨sound, coupled⟩ := ih
      have on := run.on (t₀ + k) (by omega)
      have keeps := scl.keeps (t := t₀ + k)
      have oen := scl.oen (t := t₀ + k + 1)
      rw [r.next] at keeps oen
      have next := sound.step hp on coupled.polite rfl keeps oen
      rw [← r.next] at next
      exact ⟨next, coupled.step hp on sound⟩
  obtain ⟨k, rfl⟩ := Nat.exists_eq_add_of_le late
  exact (both k).2

end DriverRun

end Driver

end Rockling
