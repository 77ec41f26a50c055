import Rockling.Driver.Attached
import Rockling.Driver.Transactions

/-!
# The driver behind the wires

With nothing to go by but the wires, the DAC and the CODEC answer the core in every run of the
driver just as `Bus.reply` answers its calls. What carries this from clock to clock (`Synced`) is
that the devices are where the program that is left finds them, or were there when the command was
written that is being polled. So a job that has returned has returned what it does against the
devices (`served_jobs`), and in between they leave SDA alone wherever the controller does not listen
(`quiet_at`).
-/

namespace Rockling

open TwoWire (Symbol Reader Device Target)

namespace Driver

open RTLI2C

variable {β : Type} {v : BitVec 32} {jobs : ℕ → Prog ByteIface β} {r : Run}

/-- The devices before job `n`, when each job before has been run against them. -/
def Bus.history (nack : ℕ → Bool) (jobs : ℕ → Prog ByteIface β) (s : Bus) : ℕ → Bus
  | 0 => s
  | n + 1 => ((jobs n).run (Bus.reply (quietWire nack)) (s.history nack jobs n)).2

/-- The devices in clock `t`, which know nothing but what has been on the wires. -/
abbrev devicesAt (nack : ℕ → Bool) (s : Bus) (r : Run) (t : ℕ) : Target Bus :=
  (Target.mk s []).after (busDevice nack) (wires r t)

/-! ## The program that is left -/

/-- What is left of the job at a stage, and while the CPU polls what was left when it wrote the
command. -/
def Stage.left (s : RTLI2C) : Stage β → Prog ByteIface β
  | .ready q => q
  | .command o k => .call o k
  | .polling o k => .call o k
  | .fetch status k => k (status, s.readCsr .rxr)

/-- The clock `w` in which the devices are where the program that is left finds them: this one, or
while the CPU polls the one in which it wrote the command. -/
def Stage.Since (r : Run) (w t : ℕ) : Stage β → Prop
  | .command o _ => w = t ∧ o.Loaded (r.st t).txr
  | .polling o _ => w < t ∧ (r.inp w).write .command = some o.word ∧ o.Loaded (r.st w).txr ∧
      ∀ u, w < u → u < t → (r.inp u).write .command = none
  | _ => w = t

/-- The CPU polls once the command has been written. -/
theorem Stage.Since.begins {w : ℕ} {o : ByteOp} {k : ByteIface.Reply o → Prog ByteIface β}
    (hw : (r.inp w).write .command = some o.word) (loaded : o.Loaded (r.st w).txr) :
    (Stage.polling o k).Since r w (w + 1) :=
  ⟨Nat.lt_succ_self w, hw, loaded, fun u low high => by omega⟩

/-- It may poll again if no other command is written. -/
theorem Stage.Since.goes_on {w t : ℕ} {o : ByteOp} {k : ByteIface.Reply o → Prog ByteIface β}
    (since : (Stage.polling o k).Since r w t) (quiet : (r.inp t).write .command = none) :
    (Stage.polling o k).Since r w (t + 1) := by
  obtain ⟨later, hw, loaded, only⟩ := since
  refine ⟨by omega, hw, loaded, fun u low high => ?_⟩
  rcases Nat.lt_or_ge u t with inside | now
  · exact only u low inside
  · rwa [show u = t by omega]

/-- The program `q` that is left of job `n` finds the devices as `b`. -/
structure Finds (nack : ℕ → Bool) (jobs : ℕ → Prog ByteIface β) (s : Bus) (n : ℕ)
    (q : Prog ByteIface β) (b : Bus) : Prop where
  mode : ∃ m, b.Fits m ∧ Orderly m q
  blind : Blind q
  same : q.run (Bus.reply (quietWire nack)) b =
    (jobs n).run (Bus.reply (quietWire nack)) (s.history nack jobs n)

namespace Finds

variable {nack : ℕ → Bool} {s b : Bus} {n : ℕ}

/-- When a job begins. -/
theorem first (orderly : ∀ n, Orderly .free (jobs n)) (blind : ∀ n, Blind (jobs n))
    (free : (s.history nack jobs n).sends = false) :
    Finds nack jobs s n (jobs n) (s.history nack jobs n) :=
  ⟨⟨.free, free, orderly n⟩, blind n, rfl⟩

/-- When it has returned. -/
theorem returned {x : β} (h : Finds nack jobs s n (.ret x) b) :
    b = s.history nack jobs (n + 1) ∧ b.sends = false ∧
      x = ((jobs n).run (Bus.reply (quietWire nack)) (s.history nack jobs n)).1 := by
  obtain ⟨⟨m, fits, orderly⟩, -, same⟩ := h
  have free : b.sends = false := by
    cases m with
    | free => exact fits
    | receives => exact fits.1
    | sends => exact absurd rfl orderly
  exact ⟨congrArg Prod.snd same, free, congrArg Prod.fst same⟩

/-- After a call. -/
theorem call {o : ByteOp} {k : ByteIface.Reply o → Prog ByteIface β} {reply : ByteIface.Reply o}
    {levels : List Bool} (h : Finds nack jobs s n (.call o k) b) (tells : Tells o reply levels)
    (heard : bitsOf ((Target.mk b []).serve (busDevice nack) o.frame).1 = levels) :
    ∃ b', ((Target.mk b []).serve (busDevice nack) o.frame).2 = ⟨b', []⟩ ∧
      Finds nack jobs s n (k reply) b' := by
  obtain ⟨⟨m, fits, orderly⟩, blind, same⟩ := h
  obtain ⟨m', next, alike, fits', orderly'⟩ := call_served orderly fits tells heard
  refine ⟨_, next, ⟨m', fits', orderly'⟩, blind.2 reply, ?_⟩
  rw [blind.1 _ _ alike]
  exact same

end Finds

namespace DriverRun

section

variable {p t₀ T : ℕ} {hold pull nack : ℕ → Bool} {s : Bus} (d : DriverRun v jobs r)
  (run : EnabledRun p t₀ r) (boot : d.cpu t₀ = .init (.ret ())) (hp : 3 ≤ p)
  (scl : Stretching r hold)

/-- How CPU and devices stand in clock `t`. -/
inductive Synced (d : DriverRun v jobs r) (nack : ℕ → Bool) (s : Bus) (t₀ t : ℕ) : Prop
  | booting (rest : Prog RegIface Unit) (cpu : d.cpu t = .init rest)
      (here : devicesAt nack s r t = ⟨s, []⟩)
  | serving (n : ℕ) (g : Stage β) (w : ℕ) (b : Bus) (cpu : d.cpu t = .job n g.prog)
      (since : g.Since r w t) (late : t₀ ≤ w) (here : devicesAt nack s r w = ⟨b, []⟩)
      (finds : Finds nack jobs s n (g.left (r.st t)) b)

include run boot hp scl

variable (noAl : ∀ t, (r.st t).al = false) (bus : Peripherals p r pull)
  (chained : ∀ n, Chained true (jobs n)) (answers : AnswersUntil T (busDevice nack) s r pull)

include noAl bus chained answers

/-- What the controller shows takes the devices from one clock to another. -/
theorem devices_served {w t : ℕ} (le : w ≤ t) (before : t ≤ T) :
    (devicesAt nack s r w).serve (busDevice nack) (told r w (t - w)) =
      (said r w (t - w), devicesAt nack s r t) :=
  ((d.serial run boot hp scl chained noAl).owned hp).served hp bus.line (answers.mono before) le

/-- Where the bit controller is idle nothing reaches the devices. -/
theorem devices_idle {t : ℕ} (before : t < T) (idle : (bitAt r t).cState = .idle) :
    devicesAt nack s r (t + 1) = devicesAt nack s r t := by
  have served := d.devices_served run boot hp scl noAl bus chained answers (Nat.le_succ t) before
  have silent : told r t (t + 1 - t) = [] := by
    rw [Nat.add_sub_cancel_left]
    exact shows_of_idle idle
  rw [silent] at served
  exact (congrArg Prod.snd served).symm

/-- Nothing happens while the core rests. -/
theorem devices_rest {t : ℕ} (late : t₀ ≤ t) (before : t < T) (rest : (r.st t).InPhase .resting)
    (quiet : (r.inp t).write .command = none) :
    devicesAt nack s r (t + 1) = devicesAt nack s r t ∧
      (r.st (t + 1)).readCsr .rxr = (r.st t).readCsr .rxr := by
  obtain ⟨k, a, line, sound⟩ := d.sound_at run boot hp scl late
  have kept := d.rests_until run boot hp scl late rest (Nat.le_succ t) fun y low high => by
    obtain rfl : y = t := by omega
    exact quiet
  refine ⟨d.devices_idle run boot hp scl noAl bus chained answers before
    (sound.inStep.bit_idle rest.2.1), ?_⟩
  rw [RTLI2C.readCsr, RTLI2C.readCsr, kept.2.1]

/-- **The last poll** finds the devices where the rest of the program does. -/
theorem devices_polled {w t n : ℕ} {o : ByteOp} {k : ByteIface.Reply o → Prog ByteIface β} {b : Bus}
    (late : t₀ ≤ w) (before : t ≤ T) (since : (Stage.polling o k).Since r w t)
    (here : devicesAt nack s r w = ⟨b, []⟩) (finds : Finds nack jobs s n (.call o k) b)
    (rest : (r.st t).InPhase .resting) :
    ∃ b', devicesAt nack s r t = ⟨b', []⟩ ∧
      Finds nack jobs s n (k (replyAt (r.st t) (r.st t) o)) b' := by
  obtain ⟨later, hw, loaded, only⟩ := since
  have owned := (d.serial run boot hp scl chained noAl).owned hp
  obtain ⟨frame, tells⟩ := d.frame_told run boot hp scl owned bus late hw loaded later only rest
  have served := d.devices_served run boot hp scl noAl bus chained answers later.le before
  rw [here, frame] at served
  obtain ⟨b', next, finds'⟩ := finds.call tells (by rw [served, bitsOf_said])
  rw [served] at next
  exact ⟨b', next, finds'⟩

/-! ## One clock of CPU and devices -/

/-- While the core is configured. -/
theorem synced_booting (orderly : ∀ n, Orderly .free (jobs n)) (blind : ∀ n, Blind (jobs n))
    (early : ∀ t < t₀, (d.cpu t).booted = false) (fresh : s.sends = false) {t : ℕ}
    (before : t < T) {rest : Prog RegIface Unit} (cpu : d.cpu t = .init rest)
    (here : devicesAt nack s r t = ⟨s, []⟩) : d.Synced nack s t₀ (t + 1) := by
  have idle : (bitAt r t).cState = .idle := by
    rcases Nat.lt_or_ge t t₀ with before | late
    · obtain ⟨-, _, waiting⟩ := run.waiting scl t before.le
      rw [bitAt, waiting.dormant.released]
      rfl
    · cases d.coupled run boot hp scl late with
      | booted _ rest =>
        obtain ⟨k, a, line, sound⟩ := d.sound_at run boot hp scl late
        exact sound.inStep.bit_idle rest.2.1
      | stage n g cpu' => rw [cpu] at cpu'; cases cpu'
  have next := (d.devices_idle run boot hp scl noAl bus chained answers before idle).trans here
  by_cases acts : d.access t = true
  · have cpu' := d.next_of_access acts
    rw [cpu] at cpu'
    cases rest with
    | ret =>
      refine .serving 0 (.ready (jobs 0)) (t + 1) s cpu' rfl ?_ next (.first orderly blind fresh)
      by_contra before
      have booted := early (t + 1) (by omega)
      rw [cpu'] at booted
      cases booted
    | call o k => exact .booting _ cpu' next
  · exact .booting rest ((d.next_of_pause (eq_false_of_ne_true acts)).trans cpu) next

/-- The CPU goes to the next job, or makes the first access of a call. -/
theorem synced_ready (orderly : ∀ n, Orderly .free (jobs n)) (blind : ∀ n, Blind (jobs n))
    {t n : ℕ} (late : t₀ ≤ t) (before : t < T) (acts : d.access t = true) {q : Prog ByteIface β}
    {b : Bus} (cpu : d.cpu t = .job n (Stage.ready q).prog) (here : devicesAt nack s r t = ⟨b, []⟩)
    (finds : Finds nack jobs s n q b) : d.Synced nack s t₀ (t + 1) := by
  have cpu' := d.stage_next cpu
  have writes (reg : Csr) := (d.stage_write cpu reg).trans (if_pos acts)
  rw [if_pos acts] at cpu'
  have rest := d.rest_of_ready run boot hp scl late cpu
  cases q with
  | ret x =>
    obtain ⟨next, -⟩ := d.devices_rest run boot hp scl noAl bus chained answers late before rest
      (writes .command)
    obtain ⟨rfl, free, -⟩ := finds.returned
    exact .serving (n + 1) _ (t + 1) _ cpu' rfl (by omega) (next.trans here)
      (.first orderly blind free)
  | call o k =>
    cases o with
    | tx tx flags =>
      obtain ⟨next, -⟩ := d.devices_rest run boot hp scl noAl bus chained answers late before rest
        (writes .command)
      have txr : (r.st (t + 1)).txr = (ByteOp.tx tx flags).byte := by
        have hw : (r.inp t).write .txr = some (tx &&& 0xff) := writes .txr
        rw [r.next]
        simp [RTLI2C.step, hw, ByteOp.byte]
      exact .serving n (.command (.tx tx flags) k) (t + 1) b cpu' ⟨rfl, txr⟩ (by omega)
        (next.trans here) finds
    | rx flags =>
      exact .serving n (.polling (.rx flags) k) t b cpu' (.begins (writes .command) trivial) late
        here finds

/-- The CPU polls: it will do so again, or the devices have served the call. -/
theorem synced_polling {w t n : ℕ} (late : t₀ ≤ w) (before : t < T) (acts : d.access t = true)
    {o : ByteOp} {k : ByteIface.Reply o → Prog ByteIface β} {b : Bus}
    (cpu : d.cpu t = .job n (Stage.polling o k).prog) (since : (Stage.polling o k).Since r w t)
    (here : devicesAt nack s r w = ⟨b, []⟩) (finds : Finds nack jobs s n (.call o k) b) :
    d.Synced nack s t₀ (t + 1) := by
  have quiet : (r.inp t).write .command = none := by
    rw [d.stage_write cpu, if_pos acts]
    rfl
  have cpu' : d.cpu (t + 1) = .job n (if (r.st t).tip then Stage.polling o k
      else Stage.afterPoll o k ((r.st t).readCsr .status)).prog := by
    have next := d.stage_next cpu
    rw [if_pos acts] at next
    exact next
  have later := since.1
  split at cpu'
  next => exact .serving n (.polling o k) w b cpu' (since.goes_on quiet) late here finds
  next ended =>
    have poll : d.polls t = true := by
      rw [polls, acts, cpu]
      rfl
    have rest := d.rest_of_poll run boot hp scl (by omega) poll (eq_false_of_ne_true ended)
    obtain ⟨next, rxr⟩ := d.devices_rest run boot hp scl noAl bus chained answers (by omega) before
      rest quiet
    obtain ⟨b', there, finds'⟩ := d.devices_polled run boot hp scl noAl bus chained answers late
      before.le since here finds rest
    cases o with
    | tx tx flags => exact .serving n _ (t + 1) b' cpu' rfl (by omega) (next.trans there) finds'
    | rx flags =>
      refine .serving n (.fetch _ k) (t + 1) b' cpu' rfl (by omega) (next.trans there) ?_
      rw [Stage.left, rxr]
      exact finds'

/-- The CPU waits, and while it does not poll so do the core and the devices. -/
theorem synced_pause {w t n : ℕ} (late : t₀ ≤ w) (before : t < T) (pauses : ¬ d.access t = true)
    {g : Stage β} {b : Bus} (cpu : d.cpu t = .job n g.prog) (since : g.Since r w t)
    (here : devicesAt nack s r w = ⟨b, []⟩) (finds : Finds nack jobs s n (g.left (r.st t)) b) :
    d.Synced nack s t₀ (t + 1) := by
  have cpu' := d.stage_next cpu
  rw [if_neg pauses] at cpu'
  have quiet (reg : Csr) : (r.inp t).write reg = none := by rw [d.stage_write cpu, if_neg pauses]
  have stays (noPoll : Driver.polls g.prog = false) (now : w = t) :
      devicesAt nack s r (t + 1) = ⟨b, []⟩ ∧
        (r.st (t + 1)).readCsr .rxr = (r.st t).readCsr .rxr := by
    subst now
    obtain ⟨next, rxr⟩ := d.devices_rest run boot hp scl noAl bus chained answers late before
      (d.rest_of_stage run boot hp scl late cpu noPoll) (quiet _)
    exact ⟨next.trans here, rxr⟩
  cases g with
  | ready q =>
    have now : w = t := since
    obtain ⟨next, -⟩ := stays (polls_ready q) now
    exact .serving n _ (t + 1) b cpu' rfl (by omega) next finds
  | command o k =>
    obtain ⟨now, loaded⟩ := since
    obtain ⟨next, -⟩ := stays rfl now
    have same : (r.st (t + 1)).txr = (r.st t).txr := by
      rw [r.next]
      simp [RTLI2C.step, quiet]
    exact .serving n _ (t + 1) b cpu' ⟨rfl, same ▸ loaded⟩ (by omega) next finds
  | polling o k =>
    exact .serving n (.polling o k) w b cpu' (since.goes_on (quiet _)) late here finds
  | fetch status k =>
    have now : w = t := since
    obtain ⟨next, rxr⟩ := stays rfl now
    refine .serving n (.fetch status k) (t + 1) b cpu' rfl (by omega) next ?_
    rw [Stage.left, rxr]
    exact finds

/-- One clock of CPU and devices. -/
theorem synced_step (orderly : ∀ n, Orderly .free (jobs n)) (blind : ∀ n, Blind (jobs n))
    (early : ∀ t < t₀, (d.cpu t).booted = false) (fresh : s.sends = false) {t : ℕ}
    (before : t < T) (h : d.Synced nack s t₀ t) : d.Synced nack s t₀ (t + 1) := by
  cases h with
  | booting rest cpu here =>
    exact d.synced_booting run boot hp scl noAl bus chained answers orderly blind early fresh
      before cpu here
  | serving n g w b cpu since late here finds =>
    by_cases acts : d.access t = true
    · have cpu' := d.stage_next cpu
      have writes (reg : Csr) := (d.stage_write cpu reg).trans (if_pos acts)
      rw [if_pos acts] at cpu'
      cases g with
      | ready q =>
        obtain rfl : w = t := since
        exact d.synced_ready run boot hp scl noAl bus chained answers orderly blind late before
          acts cpu here finds
      | command o k =>
        obtain ⟨rfl, loaded⟩ := since
        exact .serving n (.polling o k) w b cpu' (.begins (writes .command) loaded) late here finds
      | polling o k =>
        exact d.synced_polling run boot hp scl noAl bus chained answers late before acts cpu since
          here finds
      | fetch status k =>
        obtain rfl : w = t := since
        have rest := d.rest_of_stage run boot hp scl late cpu rfl
        obtain ⟨next, -⟩ := d.devices_rest run boot hp scl noAl bus chained answers late before
          rest (writes .command)
        exact .serving n _ (w + 1) b cpu' rfl (by omega) (next.trans here) finds
    · exact d.synced_pause run boot hp scl noAl bus chained answers late before acts cpu since here
        finds

/-- **CPU and devices stay in step.** -/
theorem synced (orderly : ∀ n, Orderly .free (jobs n)) (blind : ∀ n, Blind (jobs n))
    (early : ∀ t < t₀, (d.cpu t).booted = false) (fresh : s.sends = false) {t : ℕ}
    (before : t ≤ T) : d.Synced nack s t₀ t := by
  induction t with
  | zero => exact .booting _ d.start rfl
  | succ t ih =>
    exact d.synced_step run boot hp scl noAl bus chained answers orderly blind early fresh before
      (ih (by omega))

/-- While the controller makes START and STOP and sends its bits, the devices leave SDA alone. -/
theorem devices_quiet {t : ℕ} (before : t ≤ T) (h : d.Synced nack s t₀ t)
    (going : (bitAt r t).cState ≠ .idle) (notRead : (bitAt r t).cState.cmd ≠ .read) :
    (devicesAt nack s r t).pulls (busDevice nack) = false := by
  have awake : ¬ (r.st t).Dormant := fun dormant => by
    rw [bitAt, dormant.released] at going
    exact going rfl
  have late : t₀ ≤ t := by
    by_contra early
    obtain ⟨-, _, waiting⟩ := run.waiting scl t (by omega)
    exact awake waiting.dormant
  obtain ⟨k', a, line, sound⟩ := d.sound_at run boot hp scl late
  have busy : ¬ (r.st t).InPhase .resting := fun rest => going (sound.inStep.bit_idle rest.2.1)
  cases h with
  | booting rest cpu here =>
    cases d.coupled run boot hp scl late with
    | booted _ rest => exact absurd rest busy
    | stage n g cpu' => rw [cpu] at cpu'; cases cpu'
  | serving n g w b cpu since late' here finds =>
    cases g with
    | ready q => exact absurd (d.rest_of_ready run boot hp scl late cpu) busy
    | command o k => exact absurd (d.rest_of_stage run boot hp scl late cpu rfl) busy
    | fetch status k => exact absurd (d.rest_of_stage run boot hp scl late cpu rfl) busy
    | polling o k =>
      obtain ⟨later, hw, loaded, only⟩ := since
      obtain ⟨⟨m, fits, orderly⟩, -, -⟩ := finds
      have owned := (d.serial run boot hp scl chained noAl).owned hp
      have served := d.devices_served run boot hp scl noAl bus chained answers later.le before
      have whole := frame_remaining (n := t - w) owned hp late' hw
        (fun u low busy => d.txr_kept run boot hp scl (by omega) busy)
        (fun u low high => only u low (by omega)) (by omega)
      rw [show w + (t - w) = t by omega, loaded.frame] at whole
      have running : (r.st t).byte.cState ≠ .idle := fun idle => going (sound.inStep.bit_idle idle)
      have word := d.word_of_busy run boot hp scl late' hw later only running
      have left := bits_of_cmd sound.inStep going notRead
      rw [RTLI2C.read, RTLI2C.start, RTLI2C.stop, word, BitVec.getLsbD_setWidth,
        BitVec.getLsbD_setWidth, BitVec.getLsbD_setWidth] at left
      rw [here] at served
      have quiet : ((Target.mk b []).serve (busDevice nack)
          (told r w (t - w))).2.pulls (busDevice nack) = false :=
        call_quiet orderly fits whole left
      rw [served] at quiet
      exact quiet

end

/-! ## Runs of a sole controller -/

section

variable {hold pull nack : ℕ → Bool} {s : Bus} (d : DriverRun v jobs r)
  (hp : 10 ≤ (v.setWidth 16).toNat) (scl : Stretching r hold)
  (bus : Peripherals (v.setWidth 16).toNat r pull) (chained : ∀ n, Chained true (jobs n))
  (orderly : ∀ n, Orderly .free (jobs n)) (blind : ∀ n, Blind (jobs n)) (fresh : s.sends = false)
  {T : ℕ} (answers : AnswersUntil T (busDevice nack) s r pull)

include d hp scl bus chained orderly blind fresh answers

/-- **The driver behind the wires.** In front of a core that is the only controller on its bus, a
job that has returned has returned what it does against the devices, as the jobs before have left
them, and the devices are as it leaves them. -/
theorem served_jobs {n c : ℕ} {x : β} (before : c ≤ T) (ended : d.cpu c = .job n (.ret x)) :
    x = ((jobs n).run (Bus.reply (quietWire nack)) (s.history nack jobs n)).1 ∧
      devicesAt nack s r c = ⟨s.history nack jobs (n + 1), []⟩ := by
  have noAl := d.noAl_of_sole hp scl bus chained
  rcases d.boots with never | ⟨t₀, run, boot, early⟩
  · have booted := never c
    rw [ended] at booted
    cases booted
  · cases d.synced run boot (by omega) scl noAl bus chained answers orderly blind early fresh
      before with
    | booting rest cpu =>
      rw [ended] at cpu
      cases cpu
    | serving m g w b cpu since late here finds =>
      obtain ⟨rfl, prog⟩ := Cpu.job.inj (ended.symm.trans cpu)
      cases g with
      | ready q =>
        cases q with
        | ret y =>
          obtain rfl : x = y := Prog.ret.inj prog
          obtain rfl : w = c := since
          obtain ⟨rfl, -, result⟩ := finds.returned
          exact ⟨result, here⟩
        | call o k => cases o <;> cases prog
      | command o k => cases prog
      | polling o k => cases prog
      | fetch status k => cases prog

/-- **The devices leave SDA alone** while the controller makes START and STOP and sends its bits. -/
theorem quiet_at {t : ℕ} (before : t ≤ T) (going : (bitAt r t).cState ≠ .idle)
    (notRead : (bitAt r t).cState.cmd ≠ .read) :
    (devicesAt nack s r t).pulls (busDevice nack) = false := by
  have noAl := d.noAl_of_sole hp scl bus chained
  rcases d.boots with never | ⟨t₀, run, boot, early⟩
  · have asleep := d.dormant_of_never never t
    rw [bitAt, asleep.released] at going
    exact absurd rfl going
  · exact d.devices_quiet run boot (by omega) scl noAl bus chained answers before
      (d.synced run boot (by omega) scl noAl bus chained answers orderly blind early fresh before)
      going notRead

end

end DriverRun

end Driver

end Rockling
