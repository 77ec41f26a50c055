import Rockling.Driver.ErrorCodes
import Rockling.Rtl.BusClock
import Rockling.Rtl.Peripherals

/-!
# The driver on the bus

What a program over `i2c_tx_char` and `i2c_rx_char` does is what can be seen on the bus. While no
arbitration is lost, a listener on SCL and the SDA output of the core reads the frames of the calls
that the program makes, in their order and nothing else, and the replies to the calls are what was
on the SDA line in these frames (`job_told`). The programs are those that begin with START on a free
bus (`Chained`), as every transaction does.
-/

namespace Rockling

open TwoWire (Symbol Levels Reader)

namespace Driver

open RTLI2C

/-! ## The frame of a call -/

/-- The byte that a call transmits. -/
def ByteOp.byte : ByteOp → BitVec 8
  | .tx b _ => (b &&& 0xff).setWidth 8
  | .rx _ => 0

/-- What a call puts on the bus. -/
def ByteOp.frame (o : ByteOp) : List Symbol := wordFrame o.word o.byte

/-- The levels of SDA in the frame of a call, which its reply tells: the byte and how it was
answered. -/
def Tells : (o : ByteOp) → ByteIface.Reply o → List Bool → Prop
  | .tx b flags, status, levels => arbLost status = false ∧
      levels = lowBits 8 (ByteOp.tx b flags).byte ++ [rxAck status]
  | .rx flags, reply, levels => arbLost reply.1 = false ∧
      ∃ byte : BitVec 8, reply.2 = byte.setWidth 32 ∧
        levels = lowBits 8 byte ++ [hasFlag flags NACK]

/-- The flag that a reception answers with. -/
theorem rxCommand_ack (flags : CInt) : (rxCommand flags).getLsbD 3 = hasFlag flags NACK := by
  simp [rxCommand, getLsbD_csrReplace, COMMAND_STO_OFFSET, COMMAND_ACK_OFFSET, COMMAND_RD_OFFSET,
    -BitVec.getLsbD_eq_getElem]

/-- A reception leaves the byte register alone. -/
theorem frame_rx (flags : CInt) (txr : BitVec 8) :
    wordFrame (rxCommand flags) txr = (ByteOp.rx flags).frame := by
  obtain ⟨-, -, rd, -⟩ := rxCommand_fields flags
  rw [ByteOp.frame, ByteOp.word, wordFrame, wordFrame, rd]
  rfl

/-- TXR holds what a call transmits. -/
def ByteOp.Loaded (o : ByteOp) (txr : BitVec 8) : Prop :=
  match o with
  | .tx b flags => txr = (ByteOp.tx b flags).byte
  | .rx _ => True

/-- The frame of a command is the one of its call. -/
theorem ByteOp.Loaded.frame {o : ByteOp} {txr : BitVec 8} (loaded : o.Loaded txr) :
    wordFrame o.word txr = o.frame := by
  cases o with
  | tx b flags =>
    obtain rfl : txr = (ByteOp.tx b flags).byte := loaded
    rfl
  | rx flags => exact frame_rx flags txr

/-! ## The levels of the line -/

section Levels

variable {p t₀ : ℕ} {hold pull : ℕ → Bool} {r : Run}

/-- A NACK is a high SDA line in the acknowledge slot, where the line does not move while SCL is
high and no arbitration is lost. -/
theorem nacked_line (run : OwnedRun p t₀ hold r) (hp : 3 ≤ p) (answers : Answering r pull) {u : ℕ}
    (late : t₀ ≤ u) : nacked (r.st (u + 1)) =
      ((r.st (u + 1)).slotOver && (r.inp u).sda && (r.st (u + 1)).write) := by
  cases ends : (r.st (u + 1)).slotOver with
  | false => simp [nacked, ends]
  | true => rw [nacked, ends, (run.slotOver_line hp answers late ends).2]

/-- So are the bits that are received: levels of the line in clocks in which SCL is high. -/
theorem received_line (run : OwnedRun p t₀ hold r) (hp : 3 ≤ p) (answers : Answering r pull) {a : ℕ}
    (late : t₀ ≤ a) (n : ℕ) : received r (a + 2) n = collect (fun t =>
      if (r.st (t + 2)).byte.shift && (r.st (t + 2)).read then [(r.inp t).sda] else []) a n := by
  induction n with
  | zero => rfl
  | succ n ih =>
    rw [received, ih, collect, show a + 2 + n = a + n + 2 by omega]
    split_ifs with both
    · have shift := (Bool.and_eq_true_iff.mp both).1
      rw [(run.shift_line hp answers (show t₀ ≤ a + n by omega) shift).2]
    · rfl

end Levels

/-! ## Programs that begin with START -/

/-- A program that begins with START if the bus is `free`, and again after every STOP. -/
def Chained {β : Type} : Bool → Prog ByteIface β → Prop
  | _, .ret _ => True
  | free, .call o k => (free = true → o.word.getLsbD 7 = true) ∧
      ∀ reply, Chained (o.word.getLsbD 6) (k reply)

section Chained

variable {β : Type}

/-- On a bus that is owned less is asked for. -/
theorem Chained.of_free {q : Prog ByteIface β} (free : Bool) (h : Chained true q) :
    Chained free q := by
  cases q with
  | ret x => exact trivial
  | call => exact ⟨fun _ => h.1 rfl, h.2⟩

/-- The rest of a job at one of its stages is chained. -/
def Stage.Chained (free : Bool) : Stage β → Prop
  | .ready q => Driver.Chained free q
  | .command o k => Driver.Chained free (.call o k)
  | .polling _ k => ∀ reply, Driver.Chained free (k reply)
  | .fetch status k => ∀ rxr, Driver.Chained free (k (status, rxr))

/-- A command is written as chained programs do. -/
theorem Stage.Chained.command {g : Stage β} {free : Bool} {x : BitVec 32} (h : g.Chained free)
    (writes : valueFor .command g.writes = some x) :
    (free = true → x.getLsbD 7 = true) ∧ ∀ s, (g.next s).Chained (x.getLsbD 6) := by
  cases g with
  | ready q =>
    cases q with
    | ret x => cases writes
    | call o k =>
      cases o with
      | tx tx flags => cases writes
      | rx flags =>
        cases writes
        exact ⟨h.1, fun _ => h.2⟩
  | command o k =>
    cases writes
    exact ⟨h.1, fun _ => h.2⟩
  | polling o k => cases writes
  | fetch status k => cases writes

/-- Other accesses leave the bus as it is. -/
theorem Stage.Chained.other {g : Stage β} {free : Bool} (h : g.Chained free) (s : RTLI2C)
    (writes : valueFor .command g.writes = none) : (g.next s).Chained free := by
  cases g with
  | ready q =>
    cases q with
    | ret x => exact trivial
    | call o k =>
      cases o with
      | tx tx flags => exact h
      | rx flags => cases writes
  | command o k => cases writes
  | polling o k =>
    rw [next]
    split_ifs
    · exact h
    · cases o with
      | tx tx flags => exact h _
      | rx flags => exact fun rxr => h _
  | fetch status k => exact h _

end Chained

namespace DriverRun

variable {β : Type} {v : BitVec 32} {jobs : ℕ → Prog ByteIface β} {r : Run}

/-- In every clock the rest of a job is chained to the commands that have been written. -/
theorem chained_at (d : DriverRun v jobs r) (chained : ∀ n, Chained true (jobs n)) (t : ℕ)
    (late : (d.cpu t).booted = true) :
    d.cpu t = .init (.ret ()) ∨ ∃ n g, d.cpu t = .job n (Stage.prog g) ∧
      g.Chained (freeAt r t) := by
  induction t with
  | zero =>
    rw [d.start] at late
    cases late
  | succ t ih =>
    cases before : (d.cpu t).booted with
    | false =>
      obtain ⟨rest, cpu, boots, -⟩ := d.of_not_booted before
      left
      by_cases acts : d.access t = true
      · have next := d.next_of_access acts
        rw [cpu] at next
        cases boots with
        | control value re => exact next
        | read =>
          rw [next] at late
          cases late
        | reset =>
          rw [next] at late
          cases late
        | prescale =>
          rw [next] at late
          cases late
      · rw [d.next_of_pause (eq_false_of_ne_true acts), before] at late
        cases late
    | true =>
      rcases ih before with cpu | ⟨n, g, cpu, here⟩
      · by_cases acts : d.access t = true
        · have next := d.next_of_access acts
          rw [cpu] at next
          exact Or.inr ⟨0, .ready (jobs 0), next, (chained 0).of_free _⟩
        · exact Or.inl ((d.next_of_pause (eq_false_of_ne_true acts)).trans cpu)
      · right
        have next := d.stage_next cpu
        have write := d.stage_write cpu .command
        rw [freeAt]
        by_cases acts : d.access t = true
        · rw [if_pos acts] at next write
          by_cases ended : g.isRet = true
          · rw [if_pos ended] at next
            exact ⟨n + 1, .ready (jobs (n + 1)), next, (chained (n + 1)).of_free _⟩
          · rw [if_neg ended] at next
            refine ⟨n, g.next (r.st t), next, ?_⟩
            rw [write]
            cases hw : valueFor .command g.writes with
            | none => exact here.other _ hw
            | some x => exact (here.command hw).2 _
        · rw [if_neg acts] at next write
          rw [write]
          exact ⟨n, g, next, here⟩

section

variable {p t₀ : ℕ} {hold pull : ℕ → Bool} (d : DriverRun v jobs r) (run : EnabledRun p t₀ r)
  (boot : d.cpu t₀ = .init (.ret ())) (hp : 3 ≤ p) (scl : Stretching r hold)

include run boot hp scl

/-- Chained programs write their commands one at a time, beginning with START on a free bus. The
first one comes after its byte. -/
theorem commands (chained : ∀ n, Chained true (jobs n)) {t : ℕ} {x : BitVec 32} (late : t₀ ≤ t)
    (hw : (r.inp t).write .command = some x) :
    t₀ + 2 ≤ t ∧ (r.st t).command = 0 ∧ (r.st t).byte.cState = .idle ∧ isTransfer x = true ∧
      (freeAt r t = true → x.getLsbD 7 = true) := by
  obtain ⟨rest, asks⟩ := (d.coupled run boot hp scl late).of_write hw
  obtain ⟨-, o, -, word, -⟩ := asks rfl
  refine ⟨?_, rest.1, rest.2.1, word ▸ isTransfer_word o, ?_⟩
  · -- `i2c_init` returns in one clock, the next one finds the first job at its first access
    have waits : ∀ u, d.cpu u = .init (.ret ()) → (r.inp u).write .command = none := by
      intro u cpu
      by_cases acts : d.access u = true
      · rw [d.write_of_access acts, cpu]
        rfl
      · exact d.write_of_pause (eq_false_of_ne_true acts) _
    by_contra early
    obtain rfl | rfl : t = t₀ ∨ t = t₀ + 1 := by omega
    · rw [waits _ boot] at hw
      cases hw
    · by_cases acts : d.access t₀ = true
      · have cpu : d.cpu (t₀ + 1) = .job 0 (Stage.ready (jobs 0)).prog := by
          rw [d.next_of_access acts, boot]
          rfl
        have first := chained 0
        rw [d.stage_write cpu] at hw
        split_ifs at hw
        cases program : jobs 0 with
        | ret y =>
          rw [program] at hw
          cases hw
        | call o k =>
          rw [program] at hw first
          cases o with
          | tx tx flags => cases hw
          | rx flags =>
            have sta := first.1 rfl
            rw [ByteOp.word, (rxCommand_fields flags).1] at sta
            cases sta
      · rw [waits _ ((d.next_of_pause (eq_false_of_ne_true acts)).trans boot)] at hw
        cases hw
  · rcases d.chained_at chained t (d.booted_of_write (Or.inr rfl) hw) with cpu | ⟨n, g, cpu, here⟩
    · by_cases acts : d.access t = true
      · rw [d.write_of_access acts, cpu] at hw
        cases hw
      · rw [d.write_of_pause (eq_false_of_ne_true acts)] at hw
        cases hw
    · rw [d.stage_write cpu] at hw
      by_cases acts : d.access t = true
      · rw [if_pos acts] at hw
        exact (here.command hw).1
      · rw [if_neg acts] at hw
        cases hw

/-- Without an arbitration loss it is a run of commands one at a time. -/
theorem serial (chained : ∀ n, Chained true (jobs n)) (noAl : ∀ t, (r.st t).al = false) :
    SerialRun p t₀ hold r :=
  ⟨run, scl, noAl, fun _ _ late hw => (d.commands run boot hp scl chained late hw).2⟩

/-- TXR is written while the core rests. -/
theorem txr_kept {t : ℕ} (late : t₀ ≤ t) (busy : (r.st t).command ≠ 0) :
    (r.inp t).write .txr = none := by
  cases hw : (r.inp t).write .txr with
  | none => rfl
  | some x => exact absurd ((d.coupled run boot hp scl late).of_write hw).1.1 busy

omit run boot hp scl in
/-- A transmission has its byte in TXR when it writes its command. -/
theorem txr_of_tx {n a b w u : ℕ} {tx flags : CInt} {k : CInt → Prog ByteIface β}
    (cpu : d.cpu a = .job n (Stage.ready (.call (.tx tx flags) k)).prog)
    (answered : d.Answered n (.tx tx flags) a b w u) :
    (r.st w).txr = (ByteOp.tx tx flags).byte := by
  have since := answered.since
  have later := answered.later
  have ended := answered.ended
  have access : d.access w = true := by
    by_contra pause
    have hw := answered.write
    rw [d.write_of_pause (eq_false_of_ne_true pause)] at hw
    cases hw
  -- the first access writes TXR
  rcases d.acts a with ⟨z, low, acts, same, -⟩ | never
  · have here := (same z low le_rfl).trans cpu
    have first : z < w := by
      by_contra after
      have hw := answered.write
      rw [d.stage_write ((same w since (by omega)).trans cpu)] at hw
      simp [access, Stage.writes] at hw
    have txr : (r.st (z + 1)).txr = (ByteOp.tx tx flags).byte := by
      have hw : (r.inp z).write .txr = some (tx &&& 0xff) := by
        rw [d.stage_write here, if_pos acts]
        rfl
      rw [r.next]
      simp [RTLI2C.step, hw, ByteOp.byte]
    have next : d.cpu (z + 1) = .job n (Stage.command (.tx tx flags) k).prog := by
      rw [d.stage_next here, if_pos acts]
      rfl
    -- the second one writes the command
    rcases d.acts (z + 1) with ⟨y, low', acts', same', quiet⟩ | never
    · have command : (r.inp y).write .command = some (ByteOp.tx tx flags).word := by
        rw [d.stage_write ((same' y low' le_rfl).trans next), if_pos acts']
        rfl
      have before : y ≤ w := by
        by_contra after
        have hw := answered.write
        rw [quiet w _ (by omega) (by omega)] at hw
        cases hw
      obtain rfl : y = w := by
        by_contra ne
        rw [answered.only y (by omega) (by omega) ne] at command
        cases command
      have kept : ∀ t, z + 1 ≤ t → t ≤ y → (r.st t).txr = (ByteOp.tx tx flags).byte := by
        intro t low high
        induction t, low using Nat.le_induction with
        | base => exact txr
        | succ t low ih =>
          rw [r.next]
          simp [RTLI2C.step, quiet t _ low high, ih (Nat.le_of_succ_le high)]
      exact kept y low' le_rfl
    · rw [(never w first).2] at access
      cases access
  · rw [(never w since).2] at access
    cases access

/-- While the core rests nothing can be seen. -/
theorem silent_of_rest {a b : ℕ} (late : t₀ ≤ a)
    (rest : ∀ t, a ≤ t → t < b → (r.st t).InPhase .resting) :
    told r a (b - a) = [] ∧ caught r a (b - a) = [] := by
  have idle : ∀ t, a ≤ t → t < a + (b - a) → (bitAt r t).cState = .idle := by
    intro t low high
    obtain ⟨k, a', line, sound⟩ := d.sound_at run boot hp scl (t := t) (by omega)
    exact sound.inStep.bit_idle (rest t low (by omega)).2.1
  exact ⟨collect_nil fun t low high => shows_of_idle (idle t low high),
    collect_nil fun t low high => hears_of_idle (idle t low high)⟩

/-- **A command is its frame**, from its write to the end of the polling, and the reply is what the
frame heard. -/
theorem frame_told (owned : OwnedRun p t₀ hold r) (bus : Peripherals p r pull) {w u : ℕ}
    {o : ByteOp} (late : t₀ ≤ w) (hw : (r.inp w).write .command = some o.word)
    (loaded : o.Loaded (r.st w).txr) (later : w < u)
    (only : ∀ t, w < t → t < u → (r.inp t).write .command = none)
    (rest : (r.st u).InPhase .resting) :
    told r w (u - w) = o.frame ∧ Tells o (replyAt (r.st u) (r.st u) o) (caught r w (u - w)) := by
  have txr := fun t (low : w ≤ t) busy => d.txr_kept run boot hp scl (t := t) (by omega) busy
  obtain ⟨frame, -⟩ := owned.exchange hp bus.answering late hw txr later only rest.1 rest.2.1
  have levels := owned.levels hp bus late hw txr later only rest.1 rest.2.1
  obtain ⟨rxack, arblost⟩ := status_bits (r.st u)
  have clear := run.arbLost_clear owned.noAl u
  rw [frame, levels, loaded.frame]
  refine ⟨rfl, ?_⟩
  cases o with
  | tx tx flags =>
    obtain ⟨-, -, rd, -⟩ := txCommand_fields flags
    have byte : (r.st w).txr = (ByteOp.tx tx flags).byte := loaded
    refine ⟨arblost.trans clear, ?_⟩
    change _ = _ ++ [rxAck ((r.st u).readCsr .status)]
    rw [ByteOp.word, rd, if_neg Bool.false_ne_true, byte, rxack]
  | rx flags =>
    obtain ⟨-, -, rd, -⟩ := rxCommand_fields flags
    refine ⟨arblost.trans clear, (r.st u).byte.sr, rfl, ?_⟩
    rw [ByteOp.word, rd, if_pos rfl, rxCommand_ack]

/-- **A call is its frame**, and its reply is what the frame heard. -/
theorem call_told (owned : OwnedRun p t₀ hold r) (bus : Peripherals p r pull) {n a b w u : ℕ}
    {o : ByteOp} {k : ByteIface.Reply o → Prog ByteIface β} (late : t₀ ≤ a)
    (cpu : d.cpu a = .job n (Stage.ready (.call o k)).prog) (answered : d.Answered n o a b w u) :
    told r a (b - a) = o.frame ∧
      Tells o (replyAt (r.st u) (r.st (b - 1)) o) (caught r a (b - a)) := by
  have since := answered.since
  have later := answered.later
  have ended := answered.ended
  have only : ∀ t, w < t → t < u → (r.inp t).write .command = none :=
    fun t low high => answered.only t (by omega) (by omega) (by omega)
  have restU := d.rest_of_poll run boot hp scl (by omega) answered.poll answered.tip
  have before := d.silent_of_rest run boot hp scl late fun t low (high : t < w) =>
    (d.rests_until run boot hp scl late (d.rest_of_ready run boot hp scl late cpu) low
      fun y low high => answered.only y low (by omega) (by omega)).1
  have after := d.silent_of_rest run boot hp scl (show t₀ ≤ u by omega)
    fun t low (high : t < b) => (d.rests_until run boot hp scl (by omega) restU low
      fun y low high => answered.only y (by omega) (by omega) (by omega)).1
  have kept := d.rests_until run boot hp scl (show t₀ ≤ u by omega) restU
    (show u ≤ b - 1 by omega) fun y low high => answered.only y (by omega) (by omega) (by omega)
  have whole : told r a (b - a) = told r w (u - w) :=
    collect_inside since later.le ended.le before.1 after.1
  have whole' : caught r a (b - a) = caught r w (u - w) :=
    collect_inside since later.le ended.le before.2 after.2
  have same : replyAt (r.st u) (r.st (b - 1)) o = replyAt (r.st u) (r.st u) o := by
    cases o with
    | tx tx flags => rfl
    | rx flags =>
      change (_, (r.st (b - 1)).byte.sr.setWidth 32) = _
      rw [kept.2.1]
      rfl
  have loaded : o.Loaded (r.st w).txr := by
    cases o with
    | tx tx flags => exact d.txr_of_tx cpu answered
    | rx flags => trivial
  rw [whole, whole', same]
  exact d.frame_told run boot hp scl owned bus (by omega) answered.write loaded later only restU

/-- A job that returns has gone through one of the paths of its program, and what was seen on the
wires meanwhile are the frames of its calls. -/
theorem path_told (owned : OwnedRun p t₀ hold r) (bus : Peripherals p r pull) {n c : ℕ} {x : β}
    (ended : d.cpu c = .job n (.ret x)) {q : Prog ByteIface β} {a : ℕ} (late : t₀ ≤ a) (le : a ≤ c)
    (cpu : d.cpu a = .job n (Stage.ready q).prog) :
    ∃ log, q.Path log x ∧ told r a (c - a) = log.flatMap (fun e => e.1.frame) ∧
      ∃ bits, caught r a (c - a) = bits.flatten ∧
        List.Forall₂ (fun e b => Tells e.1 e.2 b) log bits := by
  induction q generalizing a with
  | ret y =>
    obtain ⟨rfl, stays⟩ := d.returned cpu ended le
    obtain ⟨out, heard⟩ := d.silent_of_rest run boot hp scl late fun t low (high : t < c) =>
      d.rest_of_ready run boot hp scl (by omega) ((stays t low high.le).trans cpu)
    exact ⟨[], .ret x, out, [], heard, .nil⟩
  | call o k ih =>
    obtain ⟨b, w, u, before, answered, after⟩ := d.answered_of_returns ended le cpu
    have since := answered.since
    have later := answered.later
    have closes := answered.ended
    obtain ⟨out, tells⟩ := d.call_told run boot hp scl owned bus late cpu answered
    obtain ⟨log, path, rest, bits, heard, all⟩ := ih _ (by omega) before after
    refine ⟨⟨o, _⟩ :: log, .call path, ?_, caught r a (b - a) :: bits, ?_, .cons tells all⟩
    · have split : told r a (c - a) = told r a (b - a) ++ told r b (c - b) :=
        collect_append (by omega) before
      rw [split, out, rest]
      rfl
    · have split : caught r a (c - a) = caught r a (b - a) ++ caught r b (c - b) :=
        collect_append (by omega) before
      rw [split, heard]
      rfl

/-- **A job on the bus.** A job of chained programs that returns, in a run without an arbitration
loss, has gone through one of the paths of its program. A listener who is there meanwhile reads the
frames of the calls on that path, in their order and nothing else, and the reply to each call says
what was on the SDA line in its frame. -/
theorem job_told (noAl : ∀ t, (r.st t).al = false) (bus : Peripherals p r pull)
    (chained : ∀ n, Chained true (jobs n)) {n a c : ℕ} {x : β} (late : t₀ ≤ a) (le : a ≤ c)
    (cpu : d.cpu a = .job n ((jobs n).translate byteImpl)) (ended : d.cpu c = .job n (.ret x)) :
    ∃ log, (jobs n).Path log x ∧
      (Reader.listen (wave r) a (c - a)).out = log.flatMap (fun e => e.1.frame) ∧
      ∃ bits, heard r a (c - a) = bits.flatten ∧
        List.Forall₂ (fun e b => Tells e.1 e.2 b) log bits := by
  have owned := (d.serial run boot hp scl chained noAl).owned hp
  obtain ⟨k, a', line, sound⟩ := d.sound_at run boot hp scl late
  have idle := sound.inStep.bit_idle (d.rest_of_ready (q := jobs n) run boot hp scl late cpu).2.1
  obtain ⟨out, caught⟩ := owned.listen_eq hp late idle (c - a)
  rw [out, caught]
  exact d.path_told run boot hp scl owned bus ended late le cpu

end

end DriverRun

end Driver

end Rockling
