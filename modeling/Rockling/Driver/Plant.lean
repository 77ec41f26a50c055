import Rockling.Driver.Scene
import Rockling.Driver.Served
import Rockling.Lib.Feedback

/-!
# Devices that answer are peripherals

Devices that hear nothing but the two lines leave SDA alone in the bits that the controller writes,
and where it makes START and STOP. This need not be assumed, it follows from what they do: they are
peripherals (`DriverRun.peripherals`), and miss nothing of what the controller shows
(`DriverRun.onLines_eq`).

That the core loses no arbitration rests on this, and that the devices are in step with the driver
rests on that, so what is known up to one clock has to be carried to the next one. The results about
runs are about whole runs, though. They are applied to one that goes on as the given one up to a
clock `T` and then comes to a halt (`Plant.frozen`): the devices no longer move SDA, and once SCL is
low they hold it low for ever.
-/

namespace Rockling

open TwoWire (Symbol Levels Reader Target)

namespace Driver

open RTLI2C

/-- Driver and core with nobody at the two lines yet. What others hold and pull makes a run of them,
and what has happened before a clock depends on nothing but the levels of the lines. -/
structure Plant {β : Type} (prescale : BitVec 32) (jobs : ℕ → Prog ByteIface β) where
  run : (hold pull : ℕ → Bool) → Run
  driver : ∀ hold pull, DriverRun prescale jobs (run hold pull)
  scl : ∀ hold pull t,
    ((run hold pull).inp t).scl = (((run hold pull).st t).sclOen && !hold t)
  sda : ∀ hold pull t,
    ((run hold pull).inp t).sda = (((run hold pull).st t).sdaOen && !pull t)
  causal : ∀ hold pull hold' pull' t,
    (∀ u < t, ((run hold pull).inp u).scl = ((run hold' pull').inp u).scl ∧
      ((run hold pull).inp u).sda = ((run hold' pull').inp u).sda) →
    (run hold pull).st t = (run hold' pull').st t

section

variable {β : Type} {v : BitVec 32} {jobs : ℕ → Prog ByteIface β}

/-- Others, whatever they hold and pull. -/
def Others.plant (o : Others) (prescale : BitVec 32) (jobs : ℕ → Prog ByteIface β) :
    Plant prescale jobs where
  run hold pull := Others.run ⟨o.turn, hold, pull, o.dout, o.devWins⟩ prescale jobs
  driver _ _ := Others.driver _ _ _
  scl _ _ _ := rfl
  sda _ _ _ := rfl
  causal hold pull hold' pull' _ same := congrArg Scene.core
    (Others.scene_congr (o := ⟨o.turn, hold, pull, o.dout, o.devWins⟩)
      (q := ⟨o.turn, hold', pull', o.dout, o.devWins⟩) prescale jobs rfl rfl rfl same)

namespace Plant

variable (P : Plant v jobs) {hold pull hold' pull' : ℕ → Bool}

/-- What has happened before a clock depends on nothing that others do later. -/
theorem st_congr {t : ℕ} (same : ∀ u < t, hold u = hold' u ∧ pull u = pull' u) :
    (P.run hold pull).st t = (P.run hold' pull').st t := by
  induction t using Nat.strong_induction_on with
  | _ t ih =>
    refine P.causal _ _ _ _ t fun u before => ?_
    obtain ⟨holds, pulls⟩ := same u before
    have here := ih u before fun x earlier => same x (by omega)
    rw [P.scl, P.scl, P.sda, P.sda, here, holds, pulls]
    exact ⟨rfl, rfl⟩

/-! ## A run that comes to a halt -/

/-- SDA stays as it is in clock `T`. -/
def frozenPull (pull : ℕ → Bool) (T t : ℕ) : Bool := pull (min t T)

/-- An equation for those who hold SCL as before up to clock `T`, and from then on once it is low.
-/
def holdsLow (hold pull : ℕ → Bool) (T : ℕ) (h : ℕ → Bool) (t : ℕ) : Bool :=
  (if t ≤ T then hold t else h (t - 1)) ||
    (decide (T ≤ t) && !((P.run h (frozenPull pull T)).st t).sclOen)

/-- They hold SCL low from clock `T` on once it is low. -/
def frozenHold (hold pull : ℕ → Bool) (T : ℕ) : ℕ → Bool := feedback (P.holdsLow hold pull T)

/-- The run that comes to a halt after clock `T`. -/
def frozen (hold pull : ℕ → Bool) (T : ℕ) : Run :=
  P.run (P.frozenHold hold pull T) (frozenPull pull T)

/-- It is a run of the driver. -/
def frozenDriver (hold pull : ℕ → Bool) (T : ℕ) : DriverRun v jobs (P.frozen hold pull T) :=
  P.driver _ _

variable (hold pull)

theorem frozenHold_eq (T t : ℕ) : P.frozenHold hold pull T t =
    ((if t ≤ T then hold t else P.frozenHold hold pull T (t - 1)) ||
      (decide (T ≤ t) && !((P.frozen hold pull T).st t).sclOen)) := by
  have causal : Causal (P.holdsLow hold pull T) := by
    intro x y t same
    have state : (P.run x (frozenPull pull T)).st t = (P.run y (frozenPull pull T)).st t :=
      P.st_congr fun u before => ⟨same u before, rfl⟩
    rw [holdsLow, holdsLow, state]
    by_cases soon : t ≤ T
    · rw [if_pos soon, if_pos soon]
    · rw [if_neg soon, if_neg soon, same (t - 1) (by omega)]
  exact causal.feedback_eq t

variable {hold pull} {T : ℕ}

/-- Up to clock `T` nothing has changed. -/
theorem frozen_st {t : ℕ} (soon : t ≤ T + 1) :
    (P.frozen hold pull T).st t = (P.run hold pull).st t := by
  induction t using Nat.strong_induction_on with
  | _ t ih =>
    refine P.causal _ _ _ _ t fun u before => ?_
    have here := ih u before (by omega)
    have early : u ≤ T := by omega
    have holds := P.frozenHold_eq hold pull T u
    rw [if_pos early, here] at holds
    have same : (P.run (P.frozenHold hold pull T) (frozenPull pull T)).st u =
      (P.run hold pull).st u := here
    rw [P.scl, P.scl, P.sda, P.sda, same, holds, frozenPull, min_eq_left early]
    refine ⟨?_, rfl⟩
    cases ((P.run hold pull).st u).sclOen <;> simp

theorem frozen_lines {t : ℕ} (soon : t ≤ T) :
    ((P.frozen hold pull T).inp t).scl = ((P.run hold pull).inp t).scl ∧
      ((P.frozen hold pull T).inp t).sda = ((P.run hold pull).inp t).sda := by
  have here : (P.frozen hold pull T).st t = (P.run hold pull).st t := P.frozen_st (by omega)
  have holds := P.frozenHold_eq hold pull T t
  rw [if_pos soon, here] at holds
  rw [frozen] at here ⊢
  rw [P.scl, P.scl, P.sda, P.sda, here, holds, frozenPull, min_eq_left soon]
  refine ⟨?_, rfl⟩
  cases ((P.run hold pull).st t).sclOen <;> simp

/-- From clock `T` on SCL stays low once it is low. -/
theorem frozen_low {t : ℕ} (late : T ≤ t) (low : sclLine (P.frozen hold pull T) t = false) :
    sclLine (P.frozen hold pull T) (t + 1) = false := by
  have line := P.scl (P.frozenHold hold pull T) (frozenPull pull T)
  have holds : P.frozenHold hold pull T t = true := by
    have low : (((P.frozen hold pull T).st t).sclOen && !P.frozenHold hold pull T t) = false :=
      (line t).symm.trans low
    cases driven : ((P.frozen hold pull T).st t).sclOen with
    | true =>
      rw [driven] at low
      simpa using low
    | false =>
      rw [P.frozenHold_eq, driven, decide_eq_true late]
      exact Bool.or_true _
  have next : P.frozenHold hold pull T (t + 1) = true := by
    rw [P.frozenHold_eq, if_neg (by omega), Nat.add_sub_cancel, holds]
    rfl
  exact (line (t + 1)).trans (by rw [next]; exact Bool.and_false _)

/-- So where it is high it has been high since clock `T`. -/
theorem frozen_high {t n : ℕ} (late : T ≤ t)
    (high : sclLine (P.frozen hold pull T) (t + n) = true) :
    sclLine (P.frozen hold pull T) t = true := by
  induction n with
  | zero => exact high
  | succ n ih =>
    refine ih (eq_true_of_ne_false fun low => ?_)
    have next := P.frozen_low (show T ≤ t + n by omega) low
    rw [Nat.add_assoc, high] at next
    cases next

theorem frozen_stretching (scl : Stretching (P.run hold pull) hold) :
    Stretching (P.frozen hold pull T) (P.frozenHold hold pull T) where
  line := P.scl _ _
  start := by
    obtain ⟨dout, start⟩ := (P.frozenDriver hold pull T).powerOn
    have high : ((P.frozen hold pull T).st 0).sclOen = true :=
      (congrArg RTLI2C.sclOen start).trans rfl
    rw [P.frozenHold_eq, if_pos (Nat.zero_le T), scl.start, high]
    exact Bool.and_false _
  begins := by
    intro t held
    rw [P.frozenHold_eq, Bool.or_eq_true, Bool.and_eq_true, Bool.not_eq_true'] at held
    rcases held with held | ⟨-, low⟩
    · by_cases soon : t + 1 ≤ T
      · rw [if_pos soon] at held
        rcases scl.begins t held with before | low
        · left
          rw [P.frozenHold_eq, if_pos (by omega), before]
          rfl
        · right
          rw [P.frozen_st (by omega)]
          exact low
      · rw [if_neg soon] at held
        exact Or.inl held
    · exact Or.inr low

theorem frozen_timely {p : ℕ} (bus : Timely p (P.run hold pull) pull) :
    Timely p (P.frozen hold pull T) (frozenPull pull T) where
  line := P.sda _ _
  setup := by
    intro t moved n soon
    have early : t + 1 ≤ T := by
      by_contra late
      refine moved ?_
      rw [frozenPull, frozenPull, min_eq_right (by omega), min_eq_right (by omega)]
    rw [frozenPull, frozenPull, min_eq_left early, min_eq_left (by omega)] at moved
    have low := bus.setup t moved
    by_contra high
    have high := eq_true_of_ne_false high
    rcases Nat.lt_or_ge (t + 1 + n) T with inside | after
    · cases high.symm.trans ((P.frozen_lines inside.le).1.trans (low n soon))
    · obtain ⟨m, rfl⟩ : ∃ m, T = t + 1 + m := ⟨T - (t + 1), by omega⟩
      have up := P.frozen_high (t := t + 1 + m) (n := n - m) le_rfl
        (by rwa [show t + 1 + m + (n - m) = t + 1 + n by omega])
      cases up.symm.trans ((P.frozen_lines le_rfl).1.trans (low m (by omega)))

end Plant

/-! ## Slots -/

theorem going_of_slot {x : BitState} (slot : x.slot = true) : x ≠ .idle := fun idle => by
  rw [idle] at slot
  cases slot

theorem going_of_shows {s : RTLI2C} (shows : s.shows = [.start] ∨ s.shows = [.stop]) :
    s.byte.bit.cState ≠ .idle ∧ s.byte.bit.cState.cmd ≠ .read := by
  rw [RTLI2C.shows] at shows
  cases en : s.byte.bit.clkEn <;> cases state : s.byte.bit.cState <;>
    simp [en, state, BitState.shows, BitState.cmd] at shows ⊢

/-- The controller moves SDA while SCL is high for START and STOP only. -/
theorem DriverRun.going_of_move {r : Run} {hold pull : ℕ → Bool} (d : DriverRun v jobs r)
    (hp : 10 ≤ (v.setWidth 16).toNat) (scl : Stretching r hold)
    (bus : Peripherals (v.setWidth 16).toNat r pull) (chained : ∀ n, Chained true (jobs n)) {t : ℕ}
    (high : sclLine r t = true) (high' : sclLine r (t + 1) = true)
    (moves : (Reader.listen (wave r) 0 t).reads (wave r (t + 1)) ≠ []) :
    (bitAt r t).cState ≠ .idle ∧ (bitAt r t).cState.cmd ≠ .read := by
  have last : (Reader.listen (wave r) 0 t).last = wave r t := by
    rw [Reader.listen_last, Nat.zero_add]
  have up : (wave r t).scl = true := high
  have up' : (wave r (t + 1)).scl = true := high'
  have made := Reader.reads_high (by rw [last, up]) up' moves
  rcases d.boots with never | ⟨t₀, run, boot, -⟩
  · have still (u : ℕ) : (wave r u).sda = true := (d.dormant_of_never never u).sdaOen
    have same : (wave r t).sda = (wave r (t + 1)).sda := (still t).trans (still (t + 1)).symm
    rw [Reader.reads, last, up, up'] at moves
    exact absurd (if_pos same) moves
  · have noAl := d.noAl_of_sole hp scl bus chained
    have owned := (d.serial run boot (by omega) scl chained noAl).owned (by omega)
    rw [owned.reads_eq (by omega)] at made
    exact going_of_shows made

/-- While SCL is high a slot goes on. -/
theorem DriverRun.slot_before {r : Run} {hold : ℕ → Bool} (d : DriverRun v jobs r)
    (hp : 3 ≤ (v.setWidth 16).toNat) (scl : Stretching r hold) {t : ℕ}
    (high : sclLine r t = true) (slot : (bitAt r (t + 1)).cState.slot = true) :
    (bitAt r t).cState.slot = true ∧ (bitAt r t).cState.cmd = (bitAt r (t + 1)).cState.cmd := by
  have awake : ¬ (r.st (t + 1)).Dormant := fun dormant => by
    rw [bitAt, dormant.released] at slot
    cases slot
  rcases d.boots with never | ⟨t₀, run, boot, -⟩
  · exact absurd (d.dormant_of_never never (t + 1)) awake
  · have late : t₀ ≤ t := by
      by_contra early
      obtain ⟨-, _, waiting⟩ := run.waiting scl (t + 1) (by omega)
      exact awake waiting.dormant
    obtain ⟨k, a, line, sound⟩ := d.sound_at run boot hp scl late
    have running := (run.on t late).running (r.inp t)
    have bit : bitAt r (t + 1) =
        (bitAt r t).step ((r.st t).byte.bitIn ((r.st t).byteIn (r.inp t))) :=
      (congrArg (fun s => s.byte.bit) (r.next t)).trans step_bit
    rw [bit] at slot ⊢
    obtain ⟨here | setup, same⟩ := BitCtrl.step_slot_cmd running slot
    · exact ⟨here, same⟩
    · have low : (r.st t).sclOen = false := (sound.timed.setup setup).1
      rw [sclLine, scl.line, low] at high
      cases high

namespace Plant

variable (P : Plant v jobs) {hold pull nack : ℕ → Bool} {s : Bus} {T : ℕ}

/-- Where the others have yielded up to clock `T`, they are peripherals in the run that comes to a
halt. -/
theorem frozen_peripherals (hp : 3 ≤ (v.setWidth 16).toNat)
    (scl : Stretching (P.run hold pull) hold)
    (bus : Timely (v.setWidth 16).toNat (P.run hold pull) pull)
    (yields : ∀ t ≤ T, sclLine (P.run hold pull) t = true →
      (bitAt (P.run hold pull) t).cState.slot = true →
      (bitAt (P.run hold pull) t).cState.cmd = .write → pull t = false) :
    Peripherals (v.setWidth 16).toNat (P.frozen hold pull T) (frozenPull pull T) where
  toTimely := P.frozen_timely bus
  yields := by
    have early : ∀ t ≤ T, sclLine (P.frozen hold pull T) t = true →
        (bitAt (P.frozen hold pull T) t).cState.slot = true →
        (bitAt (P.frozen hold pull T) t).cState.cmd = .write → pull t = false := by
      intro t soon high slot write
      rw [sclLine, (P.frozen_lines soon).1] at high
      rw [bitAt, P.frozen_st (by omega)] at slot write
      exact yields t soon high slot write
    have late (n : ℕ) (high : sclLine (P.frozen hold pull T) (T + n) = true)
        (slot : (bitAt (P.frozen hold pull T) (T + n)).cState.slot = true)
        (write : (bitAt (P.frozen hold pull T) (T + n)).cState.cmd = .write) : pull T = false := by
      induction n with
      | zero => exact early T le_rfl high slot write
      | succ n ih =>
        have before := P.frozen_high (t := T + n) (n := 1) (by omega) high
        obtain ⟨slot', same⟩ := (P.frozenDriver hold pull T).slot_before hp
          (P.frozen_stretching scl) before slot
        exact ih before slot' (same.trans write)
    intro t high slot write
    rw [frozenPull]
    rcases Nat.le_total t T with soon | after
    · rw [min_eq_left soon]
      exact early t soon high slot write
    · obtain ⟨n, rfl⟩ := Nat.exists_eq_add_of_le after
      rw [min_eq_right after]
      exact late n high slot write

/-- Nobody holds SCL low in clock `T` if it is high, and who begins to does so while the core does.
-/
theorem frozen_next (scl : Stretching (P.run hold pull) hold)
    (high : sclLine (P.run hold pull) T = true) :
    sclLine (P.frozen hold pull T) (T + 1) = sclLine (P.run hold pull) (T + 1) := by
  obtain ⟨up, free⟩ := Bool.and_eq_true_iff.mp ((scl.line T).symm.trans high)
  rw [Bool.not_eq_true'] at free
  have holds : P.frozenHold hold pull T (T + 1) = !((P.run hold pull).st (T + 1)).sclOen := by
    rw [P.frozenHold_eq, if_neg (by omega), Nat.add_sub_cancel, P.frozenHold_eq, if_pos le_rfl,
      free, P.frozen_st (by omega), up, P.frozen_st le_rfl]
    simp
  have line : sclLine (P.frozen hold pull T) (T + 1) =
      (((P.frozen hold pull T).st (T + 1)).sclOen && !P.frozenHold hold pull T (T + 1)) :=
    P.scl _ _ _
  rw [line, holds, P.frozen_st le_rfl, sclLine, scl.line]
  cases driven : ((P.run hold pull).st (T + 1)).sclOen with
  | false => rfl
  | true =>
    cases held : hold (T + 1) with
    | false => rfl
    | true =>
      rcases scl.begins T held with before | low
      · rw [free] at before
        cases before
      · rw [driven] at low
        cases low

/-- Up to clock `T` the devices hear the same in the run that comes to a halt, and in the clock
after it too. -/
theorem frozen_devices (scl : Stretching (P.run hold pull) hold) {t : ℕ} (soon : t ≤ T + 1) :
    devicesAt nack s (P.frozen hold pull T) t = devicesAt nack s (P.run hold pull) t := by
  have waves : ∀ u ≤ T, wave (P.frozen hold pull T) u = wave (P.run hold pull) u := by
    intro u early
    rw [wave, wave, sclLine, sclLine, (P.frozen_lines early).1, P.frozen_st (by omega)]
  have same : ∀ u ≤ T,
      devicesAt nack s (P.frozen hold pull T) u = devicesAt nack s (P.run hold pull) u :=
    fun u early => congrArg _ (wires_congr (fun x le => waves x (by omega))
      fun x before => (P.frozen_lines (by omega)).2)
  rcases Nat.lt_or_ge T t with after | early
  · obtain rfl : t = T + 1 := by omega
    cases high : sclLine (P.run hold pull) T with
    | false =>
      have low : sclLine (P.frozen hold pull T) T = false := (P.frozen_lines le_rfl).1.trans high
      rw [devicesAt, devicesAt, after_of_low high, after_of_low low]
      exact same T le_rfl
    | true =>
      refine congrArg _ (wires_congr (fun u le => ?_) fun u before =>
        (P.frozen_lines (by omega)).2)
      rcases Nat.lt_or_ge T u with last | early
      · obtain rfl : u = T + 1 := by omega
        rw [wave, wave, P.frozen_next scl high, P.frozen_st le_rfl]
      · exact waves u early
  · exact same t early

section

variable (hp : 10 ≤ (v.setWidth 16).toNat) (scl : Stretching (P.run hold pull) hold)
  (bus : Timely (v.setWidth 16).toNat (P.run hold pull) pull) (chained : ∀ n, Chained true (jobs n))
  (orderly : ∀ n, Orderly .free (jobs n)) (blind : ∀ n, Blind (jobs n)) (fresh : s.sends = false)
  (answers : AnswersUntil T (busDevice nack) s (P.run hold pull) pull)

include hp scl bus chained orderly blind fresh answers

/-- **Devices that answer leave SDA alone** while the controller makes START and STOP and sends its
bits. -/
theorem quiet_until {t : ℕ} (before : t ≤ T) (going : (bitAt (P.run hold pull) t).cState ≠ .idle)
    (notRead : (bitAt (P.run hold pull) t).cState.cmd ≠ .read) :
    (devicesAt nack s (P.run hold pull) t).pulls (busDevice nack) = false := by
  induction t using Nat.strong_induction_on with
  | _ t ih =>
    cases t with
    | zero =>
      obtain ⟨dout, start⟩ := (P.driver hold pull).powerOn
      rw [bitAt, start] at going
      exact absurd rfl going
    | succ u =>
      have yields : ∀ x ≤ u, sclLine (P.run hold pull) x = true →
          (bitAt (P.run hold pull) x).cState.slot = true →
          (bitAt (P.run hold pull) x).cState.cmd = .write → pull x = false := by
        intro x early high slot write
        rw [answers x (by omega) high]
        exact ih x (by omega) (by omega) (going_of_slot slot) (by rw [write]; exact Cmd.noConfusion)
      have bus' := P.frozen_peripherals (by omega) scl bus yields
      have answers' : AnswersUntil (u + 1) (busDevice nack) s (P.frozen hold pull u)
          (frozenPull pull u) := by
        intro x early high
        have same :
            devicesAt nack s (P.frozen hold pull u) x = devicesAt nack s (P.run hold pull) x :=
          P.frozen_devices scl (by omega)
        change frozenPull pull u x = (devicesAt nack s (P.frozen hold pull u) x).pulls _
        rw [same, frozenPull, min_eq_left (by omega)]
        exact answers x (by omega) ((P.frozen_lines (by omega)).1.symm.trans high)
      have quiet := (P.frozenDriver hold pull u).quiet_at hp (P.frozen_stretching scl) bus' chained
        orderly blind fresh answers' (t := u + 1) le_rfl
      have state : (P.frozen hold pull u).st (u + 1) = (P.run hold pull).st (u + 1) :=
        P.frozen_st le_rfl
      rw [bitAt, ← state] at going notRead
      rw [← P.frozen_devices scl le_rfl]
      exact quiet going notRead

/-- So they yield. -/
theorem yields_until {t : ℕ} (before : t < T) (high : sclLine (P.run hold pull) t = true)
    (slot : (bitAt (P.run hold pull) t).cState.slot = true)
    (write : (bitAt (P.run hold pull) t).cState.cmd = .write) : pull t = false := by
  rw [answers t before high]
  exact P.quiet_until hp scl bus chained orderly blind fresh answers before.le (going_of_slot slot)
    (by rw [write]; exact Cmd.noConfusion)

/-- Nor do they pull SDA low where the controller moves it while SCL is high. -/
theorem quiet_of_move {t : ℕ} (before : t < T) (high : sclLine (P.run hold pull) t = true)
    (high' : sclLine (P.run hold pull) (t + 1) = true)
    (moves :
      (Reader.listen (wave (P.run hold pull)) 0 t).reads (wave (P.run hold pull) (t + 1)) ≠ []) :
    (devicesAt nack s (P.run hold pull) t).pulls (busDevice nack) = false := by
  have bus' := P.frozen_peripherals (T := t) (by omega) scl bus fun x early high slot write =>
    P.yields_until hp scl bus chained orderly blind fresh answers (by omega) high slot write
  have waves : ∀ u ≤ t + 1, wave (P.run hold pull) u = wave (P.frozen hold pull t) u := by
    intro u soon
    rw [wave, wave, P.frozen_st soon]
    rcases Nat.lt_or_ge t u with last | early
    · obtain rfl : u = t + 1 := by omega
      rw [P.frozen_next scl high]
    · rw [sclLine, sclLine, (P.frozen_lines early).1]
  have scls {u : ℕ} (soon : u ≤ t + 1) (up : sclLine (P.run hold pull) u = true) :
      sclLine (P.frozen hold pull t) u = true := (congrArg Levels.scl (waves u soon)).symm.trans up
  rw [listen_congr fun u early => waves u (by omega), waves (t + 1) le_rfl] at moves
  obtain ⟨going, notRead⟩ := (P.frozenDriver hold pull t).going_of_move hp
    (P.frozen_stretching scl) bus' chained (scls (by omega) high) (scls le_rfl high') moves
  rw [bitAt, P.frozen_st (by omega)] at going notRead
  exact P.quiet_until hp scl bus chained orderly blind fresh answers before.le going notRead

/-- So they have let go of SDA there. -/
theorem free_of_move {t : ℕ} (before : t < T) (moves : Moves (P.run hold pull) t) :
    pull t = false := by
  obtain ⟨high, high', moves⟩ := moves
  rw [answers t before high]
  refine P.quiet_of_move hp scl bus chained orderly blind fresh answers before high high'
    fun none => ?_
  rw [Reader.reads, Reader.listen_last, Nat.zero_add, wave, wave, high, high'] at none
  dsimp only at none
  rw [if_neg moves] at none
  split at none <;> cases none

/-- They hear what is on the wires. -/
theorem onLines_until {t : ℕ} (before : t ≤ T) :
    onLines (busDevice nack) s (P.run hold pull) t = devicesAt nack s (P.run hold pull) t :=
  bus.answering.onLines_eq _ _ (fun _ early moves =>
    P.free_of_move hp scl bus chained orderly blind fresh answers early moves) before

end

/-- **Devices that hear nothing but the lines** answer all that the controller shows. -/
theorem answers_until (hp : 10 ≤ (v.setWidth 16).toNat) (scl : Stretching (P.run hold pull) hold)
    (bus : Timely (v.setWidth 16).toNat (P.run hold pull) pull)
    (chained : ∀ n, Chained true (jobs n)) (orderly : ∀ n, Orderly .free (jobs n))
    (blind : ∀ n, Blind (jobs n)) (fresh : s.sends = false)
    (answers : AnswersAs (busDevice nack) s (P.run hold pull) pull) (T : ℕ) :
    AnswersUntil T (busDevice nack) s (P.run hold pull) pull := by
  induction T with
  | zero => exact fun t before => absurd before (Nat.not_lt_zero t)
  | succ T ih =>
    intro t before high
    rw [answers t high, P.onLines_until hp scl bus chained orderly blind fresh ih (by omega)]

end Plant

section

variable {r : Run} {hold pull nack : ℕ → Bool} {s : Bus} (d : DriverRun v jobs r)
  (hp : 10 ≤ (v.setWidth 16).toNat) (scl : Stretching r hold)
  (bus : Timely (v.setWidth 16).toNat r pull) (chained : ∀ n, Chained true (jobs n))
  (orderly : ∀ n, Orderly .free (jobs n)) (blind : ∀ n, Blind (jobs n)) (fresh : s.sends = false)

include d hp scl bus chained orderly blind fresh

omit hp chained orderly blind fresh in
/-- A run is one of driver and core with somebody at the lines. -/
theorem DriverRun.plant : ∃ P : Plant v jobs, P.run hold pull = r := by
  obtain ⟨dout, start⟩ := d.powerOn
  exact ⟨(d.others hold pull dout).plant v jobs, d.others_run start scl.line bus.line⟩

variable (answers : AnswersAs (busDevice nack) s r pull)

include answers

theorem DriverRun.answers_until (T : ℕ) : AnswersUntil T (busDevice nack) s r pull := by
  obtain ⟨P, rfl⟩ := d.plant scl bus
  exact P.answers_until hp scl bus chained orderly blind fresh answers T

/-- **Devices that answer are peripherals.** -/
theorem DriverRun.peripherals : Peripherals (v.setWidth 16).toNat r pull where
  toTimely := bus
  yields := by
    have until' := d.answers_until hp scl bus chained orderly blind fresh answers
    obtain ⟨P, rfl⟩ := d.plant scl bus
    intro t high slot write
    exact P.yields_until hp scl bus chained orderly blind fresh (until' (t + 1))
      (Nat.lt_succ_self t) high slot write

/-- **They miss nothing** of what the controller shows. -/
theorem DriverRun.onLines_eq (t : ℕ) :
    onLines (busDevice nack) s r t = devicesAt nack s r t := by
  have until' := d.answers_until hp scl bus chained orderly blind fresh answers
  obtain ⟨P, rfl⟩ := d.plant scl bus
  exact P.onLines_until hp scl bus chained orderly blind fresh (until' t) le_rfl

end

end

end Driver

end Rockling
