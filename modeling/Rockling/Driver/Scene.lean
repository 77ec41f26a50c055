import Rockling.Driver.Execution

/-!
# The driver among others

A run of the driver is determined by what is around it: the clocks in which the CPU has its turn and
those in which others on the bus hold SCL low or pull SDA low (`Others`). However they behave,
driver and core make a run with them (`Others.run`, `Others.driver`), and every run of the driver is
one of these (`DriverRun.others_run`). What has happened before a clock depends on nothing but the
levels that they have given the two lines (`Others.scene_congr`).
-/

namespace Rockling

namespace Driver

open RTLI2C

/-- What is around the driver and its core: when it is the turn of the CPU, and when others hold SCL
low or pull SDA low. -/
structure Others where
  turn : ℕ → Bool
  hold : ℕ → Bool
  pull : ℕ → Bool
  /-- The last datum of the bit controller, which has no reset. -/
  dout : Bool
  devWins : ℕ → Bool

/-- Core and CPU in one clock. -/
structure Scene (β : Type) where
  core : RTLI2C
  cpu : Cpu β
  /-- `command` was written in the clock before. -/
  commanded : Bool

namespace Others

variable {β : Type} (o : Others) (prescale : BitVec 32) (jobs : ℕ → Prog ByteIface β)

/-- The CPU makes an access in clock `t`. -/
def acts (t : ℕ) (x : Scene β) : Bool := o.turn t && !x.commanded

/-- What happens around the core in clock `t`. -/
def inputs (t : ℕ) (x : Scene β) : In where
  bus := if o.acts t x then x.cpu.writes else none
  scl := x.core.sclOen && !o.hold t
  sda := x.core.sdaOen && !o.pull t
  devWins := o.devWins t

/-- Clock `t`. -/
def step (t : ℕ) (x : Scene β) : Scene β where
  core := x.core.step (o.inputs t x)
  cpu :=
    if o.acts t x then x.cpu.next (fun n => (jobs n).translate byteImpl) x.core else x.cpu
  commanded := ((o.inputs t x).write .command).isSome

/-- How things are in clock `t`. -/
def scene : ℕ → Scene β
  | 0 => ⟨powerOn o.dout, .init (i2cInitWith prescale), false⟩
  | t + 1 => o.step jobs t (scene t)

/-- The run. -/
def run : Run where
  st t := (o.scene prescale jobs t).core
  inp t := o.inputs t (o.scene prescale jobs t)
  next _ := rfl

/-- It is a run of the driver, whatever the jobs are. -/
def driver : DriverRun prescale jobs (o.run prescale jobs) where
  access t := o.acts t (o.scene prescale jobs t)
  cpu t := (o.scene prescale jobs t).cpu
  powerOn := ⟨o.dout, rfl⟩
  start := rfl
  next _ := rfl
  bus _ := rfl
  delay := by
    intro t v write
    have commanded : (o.scene prescale jobs (t + 1)).commanded = true :=
      (congrArg Option.isSome write).trans rfl
    rw [acts, commanded]
    exact Bool.and_false _

theorem driver_cpu (t : ℕ) :
    (o.driver prescale jobs).cpu t = (o.scene prescale jobs t).cpu := rfl

/-- The CPU goes on if it has two turns in a row again and again. -/
theorem fair (turns : Recurs fun t => (o.turn t && o.turn (t + 1)) = true) :
    Recurs fun t => (o.driver prescale jobs).access t = true := by
  intro t
  obtain ⟨u, later, both⟩ := turns t
  obtain ⟨turn, turn'⟩ := Bool.and_eq_true_iff.mp both
  by_cases acts : o.acts u (o.scene prescale jobs u) = true
  · exact ⟨u, later, acts⟩
  · -- the CPU waits for the end of a write, so there is none in this clock
    refine ⟨u + 1, by omega, ?_⟩
    have waits : (o.scene prescale jobs (u + 1)).commanded = false := by
      change ((o.inputs u (o.scene prescale jobs u)).write .command).isSome = false
      rw [inputs, In.write, if_neg acts]
      rfl
    change o.acts (u + 1) (o.scene prescale jobs (u + 1)) = true
    rw [Others.acts, turn', waits]
    rfl

/-- Others who have given the lines the same levels before clock `t` make the same scene of it. -/
theorem scene_congr {o q : Others} (turn : o.turn = q.turn) (dout : o.dout = q.dout)
    (devWins : o.devWins = q.devWins) {t : ℕ}
    (same : ∀ u < t,
      (o.inputs u (o.scene prescale jobs u)).scl = (q.inputs u (q.scene prescale jobs u)).scl ∧
      (o.inputs u (o.scene prescale jobs u)).sda = (q.inputs u (q.scene prescale jobs u)).sda) :
    o.scene prescale jobs t = q.scene prescale jobs t := by
  induction t with
  | zero => rw [scene, scene, dout]
  | succ t ih =>
    have here := ih fun u before => same u (by omega)
    have acts : o.acts t (o.scene prescale jobs t) = q.acts t (q.scene prescale jobs t) := by
      rw [Others.acts, Others.acts, turn, here]
    have inputs :
        o.inputs t (o.scene prescale jobs t) = q.inputs t (q.scene prescale jobs t) := by
      obtain ⟨scl, sda⟩ := same t (Nat.lt_succ_self t)
      refine In.ext ?_ scl sda (congrFun devWins t)
      rw [Others.inputs, Others.inputs, acts, here]
    rw [scene, scene, step, step, inputs, acts, here]

/-- Check clock after clock, `n` of them from clock `t` on. -/
def checks (p : ℕ → Scene β → Bool) : ℕ → ℕ → Scene β → Bool
  | 0, _, _ => true
  | n + 1, t, x => p t x && checks p n (t + 1) (o.step jobs t x)

/-- What has been checked holds in each of these clocks. -/
theorem of_checks {p : ℕ → Scene β → Bool} {n a : ℕ}
    (checked : o.checks jobs p n a (o.scene prescale jobs a) = true) {t : ℕ} (late : a ≤ t)
    (soon : t < a + n) : p t (o.scene prescale jobs t) = true := by
  induction n generalizing a with
  | zero => omega
  | succ n ih =>
    rw [checks, Bool.and_eq_true] at checked
    obtain ⟨here, rest⟩ := checked
    rcases Nat.eq_or_lt_of_le late with rfl | after
    · exact here
    · exact ih rest after (by omega)

end Others

namespace DriverRun

variable {β : Type} {prescale : BitVec 32} {jobs : ℕ → Prog ByteIface β} {r : Run}

/-- What is around the driver in a given run. -/
def others (d : DriverRun prescale jobs r) (hold pull : ℕ → Bool) (dout : Bool) : Others :=
  ⟨d.access, hold, pull, dout, fun t => (r.inp t).devWins⟩

/-- There it is again. -/
theorem others_run (d : DriverRun prescale jobs r) {hold pull : ℕ → Bool} {dout : Bool}
    (start : r.st 0 = RTLI2C.powerOn dout) (scl : ∀ t, (r.inp t).scl = ((r.st t).sclOen && !hold t))
    (sda : ∀ t, (r.inp t).sda = ((r.st t).sdaOen && !pull t)) :
    (d.others hold pull dout).run prescale jobs = r := by
  let o := d.others hold pull dout
  let commanded (t : ℕ) : Prop := match t with
    | 0 => (o.scene prescale jobs 0).commanded = false
    | t + 1 => (o.scene prescale jobs (t + 1)).commanded = ((r.inp t).write .command).isSome
  have inputs (t : ℕ) (core : (o.scene prescale jobs t).core = r.st t)
      (cpu : (o.scene prescale jobs t).cpu = d.cpu t) (last : commanded t) :
      o.acts t (o.scene prescale jobs t) = d.access t ∧
        o.inputs t (o.scene prescale jobs t) = r.inp t := by
    have acts : o.acts t (o.scene prescale jobs t) = d.access t := by
      rw [Others.acts]
      cases t with
      | zero =>
        rw [show (o.scene prescale jobs 0).commanded = false from last]
        exact Bool.and_true _
      | succ t =>
        have last : _ = ((r.inp t).write .command).isSome := last
        rw [last]
        cases write : (r.inp t).write .command with
        | none => exact Bool.and_true _
        | some v => exact (Bool.and_false _).trans (d.delay t v write).symm
    refine ⟨acts, In.ext ?_ ?_ ?_ rfl⟩
    · rw [Others.inputs, acts, cpu]
      exact (d.bus t).symm
    · rw [Others.inputs, core]
      exact (scl t).symm
    · rw [Others.inputs, core]
      exact (sda t).symm
  have scenes (t : ℕ) : (o.scene prescale jobs t).core = r.st t ∧
      (o.scene prescale jobs t).cpu = d.cpu t ∧ commanded t := by
    induction t with
    | zero => exact ⟨start.symm, d.start.symm, rfl⟩
    | succ t ih =>
      obtain ⟨core, cpu, last⟩ := ih
      obtain ⟨acts, given⟩ := inputs t core cpu last
      refine ⟨?_, ?_, ?_⟩
      · rw [Others.scene, Others.step, given, core]
        exact (r.next t).symm
      · rw [Others.scene, Others.step, acts, core, cpu]
        exact (d.next t).symm
      · change ((o.inputs t (o.scene prescale jobs t)).write .command).isSome = _
        rw [given]
  apply ClockedRun.ext
  · funext t
    exact (scenes t).1
  · funext t
    obtain ⟨core, cpu, last⟩ := scenes t
    exact (inputs t core cpu last).2

end DriverRun

/-- Others who hold SCL low and pull SDA low in given clocks. The CPU has a turn in every clock. -/
def timed (hold pull : ℕ → Bool) : Others := ⟨fun _ => true, hold, pull, false, fun _ => false⟩

/-- From `a` on until `b`. -/
def window (a b t : ℕ) : Bool := a ≤ t && t < b

theorem window_iff {a b t : ℕ} : window a b t = true ↔ a ≤ t ∧ t < b := by
  simp [window]

/-- Holding SCL low for a while is stretching if the controller holds it low at the beginning. -/
theorem timed_stretching {β : Type} {prescale : BitVec 32} {jobs : ℕ → Prog ByteIface β} {a b : ℕ}
    {pull : ℕ → Bool} (pos : 0 < a)
    (low : ((timed (window a b) pull).scene prescale jobs a).core.sclOen = false) :
    Stretching ((timed (window a b) pull).run prescale jobs) (window a b) where
  line _ := rfl
  start := by
    refine eq_false_of_ne_true fun held => ?_
    have := window_iff.mp held
    omega
  begins := by
    intro t held
    obtain ⟨from', until'⟩ := window_iff.mp held
    by_cases first : t + 1 = a
    · exact Or.inr (first ▸ low)
    · exact Or.inl (window_iff.mpr ⟨by omega, by omega⟩)

/-- They let go of it. -/
theorem window_recurs (a b : ℕ) : Recurs fun t => window a b t = false := by
  intro t
  refine ⟨max t b, le_max_left t b, eq_false_of_ne_true fun held => ?_⟩
  have := window_iff.mp held
  omega

end Driver

end Rockling
