import Rockling.Driver.OnTheWires
import Rockling.Remote.Peer

/-!
# The driver on a host

The driver of `custom-bios` runs on a host, over `eb_write32` and `eb_read32`, and its peer makes
the accesses on the gateware (`World.board`): each when there is room for it, and the core goes on
by itself in between. Seen from the core that is a run of the driver as on the board's own CPU
(`World.driver`), so what is proved of these holds of the devices on the wires
(`remote_on_the_wires`).
-/

namespace Rockling

namespace Remote

open Driver (Cpu DriverRun RegOp RegIface ByteIface TxnIface advance)
open RTLI2C (powerOn)

variable {β : Type}

/-! ## The gateware as a board -/

/-- What is around the core: the bus addresses of its registers, the clocks in which an access can
be made, and the levels of the lines. An access takes more than one clock. -/
structure World where
  csr : BitVec 32 → Option Csr
  room : ℕ → Bool
  lines : ℕ → RTLI2C → Bool × Bool
  comes : Recurs fun t => room t = true
  apart : ∀ t, room t = true → room (t + 1) = false

namespace World

variable (w : World)

/-- The inputs of the core in clock `t`. -/
def inp (bus : Option (Csr × BitVec 32)) (t : ℕ) (s : RTLI2C) : In :=
  ⟨bus, (w.lines t s).1, (w.lines t s).2, false⟩

/-- A clock with or without an access, from clock `g.1` and core `g.2` on. -/
def tick (bus : Option (Csr × BitVec 32)) (g : ℕ × RTLI2C) : ℕ × RTLI2C :=
  (g.1 + 1, g.2.step (w.inp bus g.1 g.2))

/-- The first clock from `t` on in which an access can be made. -/
def slot (t : ℕ) : ℕ := Nat.find (w.comes t)

/-- The core goes on until an access can be made. -/
def arrive (g : ℕ × RTLI2C) : ℕ × RTLI2C := (w.tick none)^[w.slot g.1 - g.1] g

/-- The gateware handles accesses. Its state is the clock and the core. -/
def board : Board (ℕ × RTLI2C) where
  write val addr g := w.tick ((w.csr addr).map fun r => (r, val)) (w.arrive g)
  read addr g :=
    (((w.csr addr).map (w.arrive g).2.readCsr).getD 0, w.tick none (w.arrive g))

/-! ## The same accesses by a CPU -/

/-- The CPU acts in clock `t`: it makes an access when it can, goes on to the job right after
`i2c_init`, and stops when the job has returned. -/
def acts (t : ℕ) : Cpu β → Bool
  | .init (.ret _) => true
  | .job _ (.ret _) => false
  | _ => w.room t

/-- The core and the CPU in every clock. -/
def driveAt (dout : Bool) (job : Prog ByteIface β) : ℕ → RTLI2C × Cpu β
  | 0 => (powerOn dout, .init Driver.i2cInit)
  | t + 1 =>
    let (s, cpu) := driveAt dout job t
    (s.step (w.inp (if w.acts t cpu then cpu.writes else none) t s),
      if w.acts t cpu then cpu.next (fun _ => job.translate Driver.byteImpl) s else cpu)

/-- The run of the core. -/
def run (dout : Bool) (job : Prog ByteIface β) : RTLI2C.Run where
  st t := (w.driveAt dout job t).1
  inp t :=
    let (s, cpu) := w.driveAt dout job t
    w.inp (if w.acts t cpu then cpu.writes else none) t s
  next _ := rfl

section Driver

variable (dout : Bool) (job : Prog ByteIface β)

/-- The core in every clock. -/
def core (t : ℕ) : RTLI2C := (w.driveAt dout job t).1

/-- The CPU in every clock. -/
def cpu (t : ℕ) : Cpu β := (w.driveAt dout job t).2

theorem core_next (t : ℕ) : w.core dout job (t + 1) = (w.core dout job t).step
    (w.inp (if w.acts t (w.cpu dout job t) then (w.cpu dout job t).writes else none) t
      (w.core dout job t)) := rfl

theorem cpu_next (t : ℕ) : w.cpu dout job (t + 1) =
    if w.acts t (w.cpu dout job t) then
      (w.cpu dout job t).next (fun _ => job.translate Driver.byteImpl) (w.core dout job t)
    else w.cpu dout job t := rfl

/-- A program that writes no command. -/
abbrev NoCommand (p : Prog RegIface Unit) : Prop :=
  p.Always fun q => ∀ v, Driver.writes q ≠ some (.command, v)

theorem noCommand_init : NoCommand Driver.i2cInit := by
  refine ⟨?_, fun _ => ⟨?_, fun _ => ⟨?_, fun _ => ⟨?_, fun _ => ?_⟩⟩⟩⟩ <;> rintro v ⟨⟩

/-- What is left after an access. -/
theorem always_advance {α : Type} {Q : Prog RegIface α → Prop} {o : RegOp}
    {k : RegIface.Reply o → Prog RegIface α} (h : (Prog.call o k).Always Q) (s : RTLI2C) :
    (advance s o k).Always Q := by
  cases o with
  | write reg v => exact h.2 ()
  | read reg => exact h.2 _
  | readWhile reg busy =>
    rw [advance]
    split
    · exact h
    · exact h.2 _

/-- `i2c_init` writes no command. -/
theorem init_noCommand (t : ℕ) {rest : Prog RegIface Unit}
    (cpu : w.cpu dout job t = .init rest) : NoCommand rest := by
  induction t generalizing rest with
  | zero =>
    obtain rfl : Driver.i2cInit = rest := Cpu.init.inj cpu
    exact noCommand_init
  | succ t ih =>
    rw [cpu_next] at cpu
    split at cpu
    · cases here : w.cpu dout job t with
      | init rest' =>
        rw [here] at cpu
        cases rest' with
        | ret => cases cpu
        | call o k =>
          obtain rfl := Cpu.init.inj cpu
          exact always_advance (ih here) _
      | job n rest' =>
        rw [here] at cpu
        cases rest' <;> cases cpu
    · exact ih cpu

/-- A job acts when there is room. -/
theorem acts_job {t n : ℕ} {rest : Prog RegIface β} (full : w.room t = false) :
    w.acts t (.job n rest) = false := by
  cases rest with
  | ret => rfl
  | call => exact full

/-- An access is made when there is room. -/
theorem room_of_write {t : ℕ} {cpu : Cpu β} {x : Csr × BitVec 32} (acts : w.acts t cpu = true)
    (writes : cpu.writes = some x) : w.room t = true := by
  cases cpu with
  | init rest =>
    cases rest with
    | ret => cases writes
    | call => exact acts
  | job n rest =>
    cases rest with
    | ret => cases writes
    | call => exact acts

/-- It is a run of the driver. -/
def driver : DriverRun 23 (fun _ => job) (w.run dout job) where
  access t := w.acts t (w.cpu dout job t)
  cpu := w.cpu dout job
  powerOn := ⟨dout, rfl⟩
  start := rfl
  next _ := rfl
  bus _ := rfl
  delay := by
    intro t v write
    have bus : (if w.acts t (w.cpu dout job t) then (w.cpu dout job t).writes else none) =
        some (.command, v) := by
      unfold In.write at write
      split at write
      · next reg x bus =>
        split at write
        · next is => exact bus.trans (by rw [is, Option.some.inj write])
        · cases write
      · cases write
    split at bus
    · next acts =>
      have room := w.room_of_write acts bus
      rw [cpu_next, if_pos acts]
      cases cpu : w.cpu dout job t with
      | init rest =>
        rw [cpu] at bus
        exact absurd bus ((w.init_noCommand dout job t cpu).here v)
      | job n rest =>
        rw [cpu] at bus
        cases rest with
        | ret => cases bus
        | call o k => exact w.acts_job (w.apart t room)
    · cases bus

/-- What the CPU has still to do. -/
def ahead : Cpu β → Prog RegIface β
  | .init rest => rest >>= fun _ => job.translate Driver.byteImpl
  | .job _ rest => rest

variable {dout job}

/-- A clock without room for an access. -/
theorem idle {t : ℕ} (full : w.room t = false) :
    (t + 1, w.core dout job (t + 1)) = w.tick none (t, w.core dout job t) ∧
      ahead job (w.cpu dout job (t + 1)) = ahead job (w.cpu dout job t) ∧
      w.cpu dout job (t + 1) ≠ .init (.ret ()) := by
  rw [core_next, cpu_next]
  cases w.cpu dout job t with
  | init rest =>
    cases rest with
    | ret => exact ⟨rfl, rfl, fun h => by cases h⟩
    | call o k =>
      rw [show w.acts t (.init (.call o k) : Cpu β) = false from full]
      exact ⟨rfl, rfl, fun h => by cases h⟩
  | job n rest =>
    rw [w.acts_job full]
    exact ⟨rfl, rfl, fun h => by cases h⟩

/-- The clocks until an access can be made. -/
theorem idles {t : ℕ} (ready : w.room t = true → w.cpu dout job t ≠ .init (.ret ())) (n : ℕ)
    (before : t + n ≤ w.slot t) :
    (w.tick none)^[n] (t, w.core dout job t) = (t + n, w.core dout job (t + n)) ∧
      ahead job (w.cpu dout job (t + n)) = ahead job (w.cpu dout job t) ∧
      (w.room (t + n) = true → w.cpu dout job (t + n) ≠ .init (.ret ())) := by
  induction n with
  | zero => exact ⟨rfl, rfl, ready⟩
  | succ n ih =>
    obtain ⟨core, same, -⟩ := ih (by omega)
    have full : w.room (t + n) = false := by
      by_contra room
      have first := Nat.find_min (w.comes t) (m := t + n) (by rw [← slot]; omega)
      exact first ⟨by omega, eq_true_of_ne_false room⟩
    obtain ⟨core', same', settled⟩ := @World.idle β w dout job _ full
    exact ⟨by rw [Function.iterate_succ_apply', core, ← core']; rfl, same'.trans same,
      fun _ => settled⟩

/-- The core and the CPU when an access can be made. -/
theorem arrives {t : ℕ} (ready : w.room t = true → w.cpu dout job t ≠ .init (.ret ())) :
    w.arrive (t, w.core dout job t) = (w.slot t, w.core dout job (w.slot t)) ∧
      ahead job (w.cpu dout job (w.slot t)) = ahead job (w.cpu dout job t) ∧
      w.room (w.slot t) = true ∧ w.cpu dout job (w.slot t) ≠ .init (.ret ()) := by
  obtain ⟨le, room⟩ : t ≤ w.slot t ∧ w.room (w.slot t) = true := Nat.find_spec (w.comes t)
  have sum : t + (w.slot t - t) = w.slot t := Nat.add_sub_cancel' le
  obtain ⟨core, same, settled⟩ := w.idles ready (w.slot t - t) sum.le
  rw [sum] at core same settled
  exact ⟨core, same, room, settled room⟩

/-- What comes after a part of a program waits while the part goes on. -/
theorem advance_bind {α γ : Type} (s : RTLI2C) (o : RegOp)
    (k : RegIface.Reply o → Prog RegIface α) (f : α → Prog RegIface γ) :
    advance s o (fun r => k r >>= f) = advance s o k >>= f := by
  cases o with
  | write => rfl
  | read => rfl
  | readWhile reg busy =>
    rw [advance, advance]
    split <;> rfl

/-- A clock with an access. -/
theorem access {t : ℕ} (room : w.room t = true) (settled : w.cpu dout job t ≠ .init (.ret ()))
    {o : RegOp} {k : RegIface.Reply o → Prog RegIface β}
    (next : ahead job (w.cpu dout job t) = .call o k) :
    (t + 1, w.core dout job (t + 1)) =
        w.tick (Driver.writes (.call o k)) (t, w.core dout job t) ∧
      ahead job (w.cpu dout job (t + 1)) = advance (w.core dout job t) o k := by
  rw [core_next, cpu_next]
  cases cpu : w.cpu dout job t with
  | init rest =>
    rw [cpu] at next
    cases rest with
    | ret => exact absurd cpu settled
    | call o' k' =>
      cases next
      rw [show w.acts t (.init (.call o k') : Cpu β) = true from room]
      refine ⟨?_, (advance_bind _ o k' _).symm⟩
      cases o <;> rfl
  | job n rest =>
    rw [cpu] at next
    obtain rfl : rest = .call o k := next
    rw [show w.acts t (.job n (.call o k)) = true from room]
    exact ⟨rfl, rfl⟩

end Driver

/-! ## Step by step -/

section Steps

variable {dout : Bool} {job : Prog ByteIface β} {csrAddr : Csr → BitVec 32}

/-- A program on the gateware, at an access, is where the CPU is. -/
structure At (dout : Bool) (job : Prog ByteIface β) (csrAddr : Csr → BitVec 32)
    (x : Prog BusIface β × ℕ × RTLI2C) : Prop where
  core : x.2.2 = w.core dout job x.2.1
  prog : x.1 = (ahead job (w.cpu dout job x.2.1)).translate (regImpl csrAddr)
  ready : w.room x.2.1 = true → w.cpu dout job x.2.1 ≠ .init (.ret ())

/-- An access on the gateware. -/
theorem board_step (mapped : ∀ r, w.csr (csrAddr r) = some r) (o : RegOp)
    (k : RegIface.Reply o → Prog RegIface β) (g : ℕ × RTLI2C) :
    w.board.step ((Prog.call (S := RegIface) o k).translate (regImpl csrAddr), g) =
      ((advance (w.arrive g).2 o k).translate (regImpl csrAddr),
        w.tick (Driver.writes (.call o k)) (w.arrive g)) := by
  have value (reg : Csr) : (w.board.read (csrAddr reg) g).1 = (w.arrive g).2.readCsr reg := by
    change ((w.csr (csrAddr reg)).map _).getD 0 = _
    rw [mapped]
    rfl
  cases o with
  | write reg v =>
    change (_, w.tick ((w.csr (csrAddr reg)).map fun r => (r, v)) (w.arrive g)) = _
    rw [mapped]
    rfl
  | read reg =>
    refine Prod.ext ?_ rfl
    change (k (w.board.read (csrAddr reg) g).1).translate _ = _
    rw [value]
    rfl
  | readWhile reg busy =>
    refine Prod.ext ?_ rfl
    change (if busy (w.board.read (csrAddr reg) g).1 then _ else
      (k (w.board.read (csrAddr reg) g).1).translate _) = _
    rw [value, advance]
    split <;> rfl

/-- The next access of the CPU is the next one on the gateware. -/
theorem At.step {x : Prog BusIface β × ℕ × RTLI2C} (here : w.At dout job csrAddr x)
    (mapped : ∀ r, w.csr (csrAddr r) = some r) :
    w.At dout job csrAddr (w.board.step x) ∧
      ((∃ a, x.1 = .ret a) ∨ x.2.1 < (w.board.step x).2.1) := by
  obtain ⟨q, t, s⟩ := x
  obtain ⟨now, prog, ready⟩ := here
  dsimp only at now prog ready
  subst now
  obtain ⟨core, same, room, settled⟩ := w.arrives ready
  cases left : ahead job (w.cpu dout job t) with
  | ret a =>
    rw [left] at prog
    subst prog
    refine ⟨⟨rfl, ?_, ready⟩, Or.inl ⟨a, rfl⟩⟩
    change _ = (ahead job (w.cpu dout job t)).translate _
    rw [left]
    rfl
  | call o k =>
    obtain ⟨core', after⟩ := w.access room settled (same.trans left)
    rw [left] at prog
    subst prog
    rw [w.board_step mapped, core, ← core']
    refine ⟨⟨rfl, by rw [after], fun full => ?_⟩, Or.inr ?_⟩
    · rw [w.apart _ room] at full
      cases full
    · exact Nat.lt_succ_of_le (Nat.find_spec (w.comes t)).1

/-- The driver over the bus: `i2c_init`, and then the job. -/
def remoteProg (csrAddr : Csr → BitVec 32) (job : Prog ByteIface β) : Prog BusIface β :=
  (Driver.i2cInit >>= fun _ => job.translate Driver.byteImpl).translate (regImpl csrAddr)

/-- So it goes from power-on. Either the job has returned by access `i` or at least `i` clocks have
gone by. -/
theorem at_step (mapped : ∀ r, w.csr (csrAddr r) = some r) (i : ℕ) :
    w.At dout job csrAddr (w.board.step^[i] (remoteProg csrAddr job, 0, powerOn dout)) ∧
      ((∃ a, (w.board.step^[i] (remoteProg csrAddr job, 0, powerOn dout)).1 = .ret a) ∨
        i ≤ (w.board.step^[i] (remoteProg csrAddr job, 0, powerOn dout)).2.1) := by
  induction i with
  | zero => exact ⟨⟨rfl, rfl, fun _ h => by cases h⟩, Or.inr le_rfl⟩
  | succ i ih =>
    rw [Function.iterate_succ_apply']
    obtain ⟨here, past⟩ := ih
    obtain ⟨next, moves⟩ := here.step w mapped
    refine ⟨next, ?_⟩
    have stays (x : Prog BusIface β × ℕ × RTLI2C) (a : β) (ret : x.1 = .ret a) :
        (w.board.step x).1 = .ret a := by
      obtain ⟨q, g⟩ := x
      obtain rfl : q = .ret a := ret
      rfl
    rcases moves with ⟨a, ret⟩ | later
    · exact Or.inl ⟨a, stays _ a ret⟩
    · rcases past with ⟨a, ret⟩ | past
      · exact Or.inl ⟨a, stays _ a ret⟩
      · exact Or.inr (by omega)

/-- There is one job, and when it has returned nothing more happens. -/
theorem job_stays {t n : ℕ} {a : β} (ret : w.cpu dout job t = .job n (.ret a)) {c : ℕ}
    (le : t ≤ c) : w.cpu dout job c = .job n (.ret a) := by
  induction c, le using Nat.le_induction with
  | base => exact ret
  | succ c _ ih => rw [cpu_next, ih]; rfl

theorem job_zero {t n : ℕ} {rest : Prog RegIface β} (cpu : w.cpu dout job t = .job n rest) :
    n = 0 := by
  induction t generalizing n rest with
  | zero => cases cpu
  | succ t ih =>
    rw [cpu_next] at cpu
    split at cpu
    · next acts =>
      cases here : w.cpu dout job t with
      | init rest' =>
        rw [here] at cpu
        cases rest' <;> cases cpu
        rfl
      | job m rest' =>
        rw [here] at cpu acts
        cases rest' with
        | ret => cases acts
        | call o k =>
          obtain ⟨rfl, -⟩ := Cpu.job.inj cpu
          exact ih here
    · exact ih cpu

/-- A program that has returned on the gateware is a job that has returned. -/
theorem At.returned {a : β} {t : ℕ} {s : RTLI2C} (here : w.At dout job csrAddr (.ret a, t, s))
    {c : ℕ} (later : t < c) : w.cpu dout job c = .job 0 (.ret a) := by
  have left : ahead job (w.cpu dout job t) = .ret a := by
    have prog := here.prog
    dsimp only at prog
    cases left : ahead job (w.cpu dout job t) with
    | ret b =>
      rw [left] at prog
      exact congrArg _ (Prog.ret.inj prog).symm
    | call o k =>
      rw [left] at prog
      cases o <;> cases prog
  cases cpu : w.cpu dout job t with
  | init rest =>
    rw [cpu] at left
    cases rest with
    | ret =>
      refine w.job_stays ?_ (show t + 1 ≤ c from later)
      rw [cpu_next, cpu]
      exact congrArg (Cpu.job 0) left
    | call => cases left
  | job n rest =>
    rw [cpu] at left
    obtain rfl : rest = .ret a := left
    obtain rfl := w.job_zero cpu
    exact w.job_stays cpu later.le

/-- Every job returns if SCL is not held low for ever. -/
theorem returns (mapped : ∀ r, w.csr (csrAddr r) = some r) {hold : ℕ → Bool}
    (scl : RTLI2C.Stretching (w.run dout job) hold) (finite : Recurs fun t => hold t = false) :
    ∃ i a g, w.board.step^[i] (remoteProg csrAddr job, 0, powerOn dout) = (.ret a, g) := by
  have done : ∃ c a, w.cpu dout job c = .job 0 (.ret a) := by
    by_contra never
    have fair : Recurs fun t => (w.driver dout job).access t = true := by
      intro t
      obtain ⟨le, room⟩ := Nat.find_spec (w.comes t)
      refine ⟨_, le, ?_⟩
      change w.acts _ (w.cpu dout job (Nat.find (w.comes t))) = true
      cases cpu : w.cpu dout job (Nat.find (w.comes t)) with
      | init rest =>
        cases rest with
        | ret => rfl
        | call => exact room
      | job n rest =>
        cases rest with
        | ret a =>
          obtain rfl := w.job_zero cpu
          exact absurd ⟨_, a, cpu⟩ never
        | call => exact room
    obtain ⟨-, c, a, -, -, ended⟩ :=
      (w.driver dout job).done_of_fair (by decide) scl finite fair 0
    exact never ⟨c, a, ended⟩
  obtain ⟨c, a, ended⟩ := done
  obtain ⟨here, past⟩ := @World.at_step β w dout job csrAddr mapped c
  refine ⟨c, ?_⟩
  rcases past with ⟨b, ret⟩ | later
  · exact ⟨b, _, Prod.ext ret rfl⟩
  · refine ⟨a, _, Prod.ext ?_ rfl⟩
    rw [here.prog, w.job_stays ended later]
    rfl

end Steps

end World

/-- **The driver on a host.** A program over the transactions of the driver runs on a host, over TCP
and a peer that makes its accesses on the gateware, which is the only controller on its bus and has
the DAC and the CODEC on the wires. When it returns, it returns what it does on the devices
themselves, and these are as it leaves them. If nobody holds SCL low for ever, it returns. -/
theorem remote_on_the_wires (host : Endian) (w : World) (csrAddr : Csr → BitVec 32)
    (mapped : ∀ r, w.csr (csrAddr r) = some r) (dout : Bool) (prog : Prog TxnIface β)
    (plain : Driver.Plain prog) (env : ℕ → Replies SockIface) (respond : BitVec 32 → Packet)
    (serves : Serves w.board (0, powerOn dout) respond ((client (tcp host)).exec
      (.start (World.remoteProg csrAddr (prog.translate Driver.txnImpl))) env))
    {hold pull nack : ℕ → Bool} {s : Driver.Bus}
    (scl : RTLI2C.Stretching (w.run dout (prog.translate Driver.txnImpl)) hold)
    (bus : RTLI2C.Timely 23 (w.run dout (prog.translate Driver.txnImpl)) pull)
    (fresh : s.sends = false)
    (answers : RTLI2C.AnswersAs (Driver.busDevice nack) s
      (w.run dout (prog.translate Driver.txnImpl)) pull) :
    let client := (client (tcp host)).exec
      (.start (World.remoteProg csrAddr (prog.translate Driver.txnImpl))) env
    let onDevices := prog.run (Driver.Bus.transact (Driver.quietWire nack)) s
    (∀ n a, Client.next (tcp host) (client.st n) = .returned a →
      a = onDevices.1 ∧ ∀ c, (w.board.serve (sent client n) (0, powerOn dout)).2.1 < c →
        RTLI2C.onLines (Driver.busDevice nack) s (w.run dout (prog.translate Driver.txnImpl)) c =
          ⟨onDevices.2, []⟩) ∧
    ((Recurs fun t => hold t = false) →
      ∃ n a, Client.next (tcp host) (client.st n) = .returned a) := by
  intro client onDevices
  constructor
  · intro n a returned
    obtain ⟨i, ended⟩ := (serves.ends_iff a _).mp ⟨n, returned, rfl⟩
    obtain ⟨here, -⟩ := @World.at_step β w dout (prog.translate Driver.txnImpl) csrAddr mapped i
    rw [ended] at here
    have prescale : ((23 : BitVec 32).setWidth 16).toNat = 23 := rfl
    rw [← prescale] at bus
    have served (c : ℕ) (later : (w.board.serve (sent client n) (0, powerOn dout)).2.1 < c) :
        a = onDevices.1 ∧ RTLI2C.onLines (Driver.busDevice nack) s
          (w.run dout (prog.translate Driver.txnImpl)) c = ⟨onDevices.2, []⟩ := by
      have done : (w.driver dout (prog.translate Driver.txnImpl)).cpu c = .job 0 (.ret a) :=
        here.returned w later
      have meaning : (prog.translate Driver.txnImpl).run
          (Driver.Bus.reply (Driver.quietWire nack)) s = onDevices := Prog.run_translate _ _ _ _
      rw [← meaning]
      have answers' := (w.driver dout _).answers_until (by decide) scl bus
        (fun _ => Driver.chained_translate _) (fun _ => Driver.orderly_translate _)
        (fun _ => Driver.blind_translate plain) fresh answers
      have heard := (w.driver dout _).onLines_eq (by decide) scl bus
        (fun _ => Driver.chained_translate _) (fun _ => Driver.orderly_translate _)
        (fun _ => Driver.blind_translate plain) fresh answers
      have bus := (w.driver dout _).peripherals (by decide) scl bus
        (fun _ => Driver.chained_translate _) (fun _ => Driver.orderly_translate _)
        (fun _ => Driver.blind_translate plain) fresh answers
      rw [heard]
      exact DriverRun.served_jobs _ (by decide) scl bus (fun _ => Driver.chained_translate _)
        (fun _ => Driver.orderly_translate _) (fun _ => Driver.blind_translate plain) fresh
        (answers' c) le_rfl done
    exact ⟨(served _ (Nat.lt_succ_self _)).1, fun c later => (served c later).2⟩
  · intro finite
    obtain ⟨i, a, g, ended⟩ := w.returns mapped scl finite
    obtain ⟨n, returned, -⟩ := (serves.ends_iff a g).mpr ⟨i, ended⟩
    exact ⟨n, a, returned⟩

/-! ## Gateware with devices that answer -/

/-- Gateware on whose bus others hold SCL low and pull SDA low in given clocks. -/
def World.among (w : World) (hold pull : ℕ → Bool) : World where
  csr := w.csr
  room := w.room
  lines t s := (s.sclOen && !hold t, s.sdaOen && !pull t)
  comes := w.comes
  apart := w.apart

/-- Core and host, whatever these do. -/
def World.plant (w : World) (dout : Bool) (job : Prog ByteIface β) :
    Driver.Plant 23 fun _ => job where
  run hold pull := (w.among hold pull).run dout job
  driver hold pull := (w.among hold pull).driver dout job
  scl _ _ _ := rfl
  sda _ _ _ := rfl
  causal hold pull hold' pull' t same := by
    have both :
        (w.among hold pull).driveAt dout job t = (w.among hold' pull').driveAt dout job t := by
      induction t with
      | zero => rfl
      | succ t ih =>
        have here := ih fun u before => same u (by omega)
        obtain ⟨scl, sda⟩ := same t (Nat.lt_succ_self t)
        have inputs : ((w.among hold pull).run dout job).inp t =
            ((w.among hold' pull').run dout job).inp t := by
          refine In.ext ?_ scl sda rfl
          change (if w.acts t ((w.among hold pull).driveAt dout job t).2 then
              ((w.among hold pull).driveAt dout job t).2.writes else none) =
            if w.acts t ((w.among hold' pull').driveAt dout job t).2 then
              ((w.among hold' pull').driveAt dout job t).2.writes else none
          rw [here]
        refine Prod.ext ?_ ?_
        · change ((w.among hold pull).driveAt dout job t).1.step
            (((w.among hold pull).run dout job).inp t) = _
          rw [inputs, here]
          rfl
        · change (if w.acts t ((w.among hold pull).driveAt dout job t).2 then
              ((w.among hold pull).driveAt dout job t).2.next
                (fun _ => job.translate Driver.byteImpl) ((w.among hold pull).driveAt dout job t).1
            else ((w.among hold pull).driveAt dout job t).2) = _
          rw [here]
          rfl
    exact congrArg Prod.fst both

/-- Room for an access in every third clock. -/
def everyThird (t : ℕ) : Bool := t % 3 == 0

theorem everyThird_recurs : Recurs fun t => everyThird t = true := fun t =>
  ⟨3 * t, by omega, beq_iff_eq.mpr (Nat.mul_mod_right 3 t)⟩

theorem everyThird_apart (t : ℕ) (room : everyThird t = true) : everyThird (t + 1) = false := by
  have room : t % 3 = 0 := eq_of_beq room
  exact beq_eq_false_iff_ne.mpr (by omega)

/-- A core with nobody else on its bus. -/
def quietWorld : World where
  csr addr := [Csr.prescale, .control, .txr, .rxr, .command, .status, .coreReset].find? fun r =>
    someAddr r == addr
  room := everyThird
  lines _ s := (s.sclOen, s.sdaOen)
  comes := everyThird_recurs
  apart := everyThird_apart

theorem quietWorld_mapped (r : Csr) : quietWorld.csr (someAddr r) = some r := by
  cases r <;> decide

/-- A DAC register is written and read back. -/
def writeAndRead : Prog TxnIface CInt := do
  let _ ← (Driver.Call.dacWrite 0 0x123).prog
  (Driver.Call.dacRead 0).prog

theorem plain_writeAndRead : Driver.Plain writeAndRead :=
  (Driver.Call.plain _).bind fun _ => Driver.Call.plain _

/-- On devices that acknowledge all bytes the value comes back. -/
theorem run_writeAndRead (s : Driver.Bus) :
    (writeAndRead.run (Driver.Bus.transact (Driver.quietWire fun _ => false)) s).1 = 0x123 := by
  let wire := Driver.quietWire fun _ => false
  have write := Driver.dacWriteTxn_effect wire 0 0x123 s
  have done := write.done (by rw [write.acked fun _ => rfl]; rfl)
  rw [writeAndRead, Prog.run_bind]
  have read := Driver.call_effect wire (.dacRead 0)
    ((Driver.dacWriteTxn 0 0x123).run (Driver.Bus.transact wire) s).2
  rw [Driver.run_call] at read
  have value := Driver.ReadEffect.acked read fun _ => rfl
  rw [done, Driver.RegFile.setDac_self] at value
  exact value

/-- So it does from a host. -/
theorem remote_on_the_wires_answered :
    ∃ (w : World) (hold pull : ℕ → Bool) (env : ℕ → Replies SockIface) (n : ℕ),
      RTLI2C.Stretching (w.run false (writeAndRead.translate Driver.txnImpl)) hold ∧
      RTLI2C.Timely 23 (w.run false (writeAndRead.translate Driver.txnImpl)) pull ∧
      RTLI2C.AnswersAs (Driver.busDevice fun _ => false) .clear
        (w.run false (writeAndRead.translate Driver.txnImpl)) pull ∧
      Client.next (tcp .little) (((client (tcp .little)).exec
        (.start (World.remoteProg someAddr (writeAndRead.translate Driver.txnImpl))) env).st n) =
          .returned 0x123 := by
  obtain ⟨hold, pull, scl, bus, answers, finite⟩ :=
    (quietWorld.plant false (writeAndRead.translate Driver.txnImpl)).obliging (fun _ => false)
      (by decide) (fun _ => Driver.chained_translate _) (fun _ => Driver.orderly_translate _)
      (fun _ => Driver.blind_translate plain_writeAndRead) (s := .clear) rfl
  obtain ⟨result, returns⟩ := remote_on_the_wires .little (quietWorld.among hold pull) someAddr
    quietWorld_mapped false writeAndRead plain_writeAndRead _ response (peer_serves .little _ _ _)
    scl bus rfl answers
  obtain ⟨n, ret, returned⟩ := returns finite
  refine ⟨_, hold, pull, _, n, scl, bus, answers, returned.trans ?_⟩
  rw [(result n ret returned).1, run_writeAndRead]

end Remote

end Rockling
