import Rockling.Lib.Clocked
import Rockling.Lib.Fifo
import Rockling.Lib.Memory

/-!
# The Messible

`rtl/messible.py` and `messible_puts` of `custom-bios/main.c`. A write to `IN` goes through the CSR
storage into the FIFO one clock later, a read of `OUT` takes the word on show, and `STATUS` shows
both ends of the FIFO. The device writes without a look at `STATUS.full`, so a byte that arrives at
a full FIFO is gone; nothing else loses, repeats or reorders a byte.
-/

namespace Rockling

namespace Messible

/-! ## The buffered FIFO -/

/-- The registers of `SyncFIFOBuffered`: a queue of at most `depth` words, and an output register
with its valid flag. -/
structure Buffered (depth : ℕ) where
  fifo : {l : List Byte // l.length ≤ depth}
  readable : Bool
  dout : Byte

namespace Buffered

variable {depth : ℕ}

/-- The queue behind the output register has room. -/
def writable (s : Buffered depth) : Bool := s.fifo.1.length != depth

/-- The word moves from the queue to the output register. -/
def moves (s : Buffered depth) (re : Bool) : Bool := !s.fifo.1.isEmpty && (!s.readable || re)

/-- The queue after one clock. -/
def queueNext (s : Buffered depth) (we : Bool) (din : Byte) (re : Bool) : List Byte :=
  (if s.moves re then s.fifo.1.tail else s.fifo.1) ++ if we && s.writable then [din] else []

theorem queueNext_length (s : Buffered depth) (we : Bool) (din : Byte) (re : Bool) :
    (s.queueNext we din re).length ≤ depth := by
  have hle := s.fifo.2
  have htake : (if s.moves re then s.fifo.1.tail else s.fifo.1).length ≤ s.fifo.1.length := by
    split_ifs
    · rw [List.length_tail]
      omega
    · exact le_rfl
  rw [queueNext, List.length_append]
  split_ifs at htake ⊢ with hm hw hw
  all_goals
    simp only [Bool.and_eq_true, writable, bne_iff_ne, ne_eq] at hw
    simp only [List.length_singleton, List.length_nil]
    omega

/-- One clock. -/
def step (s : Buffered depth) (we : Bool) (din : Byte) (re : Bool) : Buffered depth where
  fifo := ⟨s.queueNext we din re, s.queueNext_length we din re⟩
  readable := if s.moves re then true else if re then false else s.readable
  dout := if s.moves re then s.fifo.1.headD s.dout else s.dout

/-- The words held: the one on show, then the queue. -/
def contents (s : Buffered depth) : List Byte :=
  (if s.readable then [s.dout] else []) ++ s.fifo.1

theorem conserves (s : Buffered depth) (we : Bool) (din : Byte) (re : Bool) :
    (if re && s.readable then [s.dout] else []) ++ (s.step we din re).contents =
      s.contents ++ if we && s.writable then [din] else [] := by
  obtain ⟨⟨l, hl⟩, readable, dout⟩ := s
  simp only [contents, step, queueNext, moves]
  cases l <;> cases readable <;> cases re <;> simp

theorem length_contents (s : Buffered depth) : s.contents.length ≤ depth + 1 := by
  have hle := s.fifo.2
  rw [contents, List.length_append]
  split_ifs <;> simp <;> omega

end Buffered

/-- `SyncFIFOBuffered(8, depth)`. -/
def syncFifoBuffered (depth : ℕ) : Fifo (Buffered depth) Byte where
  init := ⟨⟨[], Nat.zero_le depth⟩, false, 0⟩
  step := Buffered.step
  writable := Buffered.writable
  readable := Buffered.readable
  dout := Buffered.dout
  contents := Buffered.contents
  depth := depth
  capacity := depth + 1
  contents_init := rfl
  conserves := Buffered.conserves
  stays := by
    intro s we din hr
    simp only [Buffered.step, hr, Bool.false_eq_true, if_false, ite_self]
  room := by
    intro s h
    rw [Buffered.contents, List.length_append] at h
    rw [Buffered.writable, bne_iff_ne]
    omega
  bounded := Buffered.length_contents

/-! ## The peripheral -/

/-- A bus access of one clock. -/
inductive Access where
  | idle
  | writeIn (v : Byte)
  | readStatus
  | readOut
  deriving DecidableEq, Repr

/-- The write that `IN` takes in this clock. -/
def Access.inWrite : Access → Option Byte
  | .writeIn v => some v
  | _ => none

/-- The registers: the storage of `IN`, its strobe `re`, and the FIFO. -/
structure Regs (σ : Type) where
  storage : Byte
  re : Bool
  fifo : σ

/-- One clock of the peripheral. -/
def Regs.step {σ : Type} (f : Fifo σ Byte) (m : Regs σ) (bus : Access) : Regs σ where
  storage := bus.inWrite.getD m.storage
  re := bus.inWrite.isSome
  fifo := f.step m.fifo m.re m.storage (bus == .readOut)

/-- `STATUS`: `full` and `have`. -/
def Regs.status {σ : Type} (f : Fifo σ Byte) (m : Regs σ) : Bool × Bool :=
  (!f.writable m.fifo, f.readable m.fifo)

/-! ## The device and the host -/

/-- The bytes that `messible_puts` writes to `IN`, for the memory its pointer points to. -/
def messiblePuts : List Byte → List Byte
  | [] => []
  | c :: p => if c = 0 then [] else c :: messiblePuts p

/-- A C string: the characters before the terminating NUL. -/
abbrev CString := {s : List Byte // 0 ∉ s}

/-- A string in memory. -/
def CString.mem (s : CString) : List Byte := s.1 ++ [0]

/-- `messible_puts` writes the characters of its string, in order. -/
theorem messiblePuts_mem (s : CString) : messiblePuts s.mem = s.1 := by
  obtain ⟨l, hl⟩ := s
  change messiblePuts (l ++ [0]) = l
  induction l with
  | nil => rfl
  | cons c l ih =>
    have hc : c ≠ 0 := fun h => hl (by simp [h])
    rw [List.cons_append, messiblePuts, if_neg hc, ih fun h => hl (List.mem_cons_of_mem c h)]

/-- Who accesses the bus in a clock. -/
inductive Turn where
  | nobody
  | device
  | hostStatus
  | hostOut
  deriving DecidableEq, Repr

/-- The system: the peripheral, the bytes that the calls of `messible_puts` have still to write,
whether the host has seen `have = 1` since its last read of `OUT`, and what the host has read. -/
structure Sys (σ : Type) where
  regs : Regs σ
  pending : List Byte
  seen : Bool
  host : List Byte

namespace Sys

variable {σ : Type} (f : Fifo σ Byte)

/-- The access a turn makes: the device writes its next byte, and the host reads `OUT` only if it
has seen `have = 1`. -/
def access (s : Sys σ) : Turn → Access
  | .nobody => .idle
  | .device => (s.pending.head?.map Access.writeIn).getD .idle
  | .hostStatus => .readStatus
  | .hostOut => if s.seen then .readOut else .idle

/-- One clock of the system. -/
def step (s : Sys σ) (turn : Turn) : Sys σ where
  regs := s.regs.step f (s.access turn)
  pending := if turn = .device then s.pending.tail else s.pending
  seen :=
    match turn with
    | .hostStatus => (s.regs.status f).2
    | .hostOut => false
    | _ => s.seen
  host := if s.access turn = .readOut then s.host ++ [f.dout s.regs.fifo] else s.host

/-- The bytes that a sequence of calls writes. -/
def puts (strs : List CString) : List Byte := strs.flatMap fun s => messiblePuts s.mem

/-- The system before a sequence of calls of `messible_puts`. -/
def start (strs : List CString) : Sys σ := ⟨⟨0, false, f.init⟩, puts strs, false, []⟩

/-- The run in which the clocks are used by `turns`. -/
def run (strs : List CString) (turns : ℕ → Turn) : ClockedRun (step f) :=
  .ofInputs (step f) (start f strs) turns

/-! ## Where a byte is -/

/-- The byte on its way from `IN` to the FIFO. -/
def inFlight (s : Sys σ) : List Byte := if s.regs.re then [s.regs.storage] else []

/-- Every byte on its way through the system, in the order of the strings. -/
def held (s : Sys σ) : List Byte := s.host ++ f.contents s.regs.fifo ++ s.inFlight ++ s.pending

/-- The byte in flight, if there is one, finds the FIFO writable. -/
def Arrives (s : Sys σ) : Prop := s.regs.re = true → f.writable s.regs.fifo = true

instance (s : Sys σ) : Decidable (s.Arrives f) := inferInstanceAs (Decidable (_ → _))

/-- The host has looked at a FIFO that is still readable. -/
def Looked (s : Sys σ) : Prop := s.seen = true → f.readable s.regs.fifo = true

/-- The byte that the FIFO accepts in this clock. -/
def accepted (s : Sys σ) : List Byte :=
  if s.regs.re && f.writable s.regs.fifo then [s.regs.storage] else []

/-! ## One clock -/

section Step

variable {f} {s : Sys σ} (turn : Turn)

theorem Looked.step (h : s.Looked f) : (s.step f turn).Looked f := by
  intro hseen
  cases turn with
  | nobody => exact f.stays _ _ _ (h hseen)
  | device =>
    -- a write is no read, whether or not there is a byte to write
    have hbus : (s.access .device == Access.readOut) = false := by
      rw [access]
      cases s.pending <;> rfl
    change f.readable
      (f.step s.regs.fifo s.regs.re s.regs.storage (s.access .device == .readOut)) = true
    rw [hbus]
    exact f.stays _ _ _ (h hseen)
  | hostStatus => exact f.stays _ _ _ hseen
  | hostOut => cases hseen

/-- The device's side: a byte it writes is in flight next. -/
theorem queued_step : (s.step f turn).inFlight ++ (s.step f turn).pending = s.pending := by
  cases turn with
  | device => cases hp : s.pending <;> simp [step, inFlight, Regs.step, access, hp, Access.inWrite]
  | hostOut => cases hs : s.seen <;> simp [step, inFlight, Regs.step, access, hs, Access.inWrite]
  | nobody => simp [step, inFlight, Regs.step, access, Access.inWrite]
  | hostStatus => simp [step, inFlight, Regs.step, access, Access.inWrite]

/-- The host's side: what it has read and what the FIFO holds grow by what the FIFO accepts. -/
theorem delivered_step (h : s.Looked f) :
    (s.step f turn).host ++ f.contents (s.step f turn).regs.fifo =
      s.host ++ f.contents s.regs.fifo ++ s.accepted f := by
  by_cases hread : s.access turn = .readOut
  · -- only a host that has looked reads
    have hr : f.readable s.regs.fifo = true := by
      apply h
      cases turn with
      | hostOut => exact eq_true_of_ne_false fun hs => by simp [access, hs] at hread
      | nobody => cases hread
      | hostStatus => cases hread
      | device => cases hp : s.pending <;> simp [access, hp] at hread
    simp only [step, Regs.step, hread, if_true, beq_self_eq_true, List.append_assoc,
      List.singleton_append]
    rw [f.contents_read _ _ _ hr, accepted]
  · have hbus : (s.access turn == Access.readOut) = false := by simp [hread]
    simp only [step, Regs.step, if_neg hread, hbus, List.append_assoc]
    rw [f.contents_write, accepted]

/-- One clock moves every byte on, or loses the one in flight. -/
theorem held_step (h : s.Looked f) : (s.step f turn).held f =
    s.host ++ f.contents s.regs.fifo ++ s.accepted f ++ s.pending := by
  rw [held, List.append_assoc, queued_step, delivered_step turn h]

theorem held_step_of_arrives (h : s.Looked f) (ha : s.Arrives f) :
    (s.step f turn).held f = s.held f := by
  have haccepted : s.accepted f = s.inFlight := by
    unfold accepted inFlight
    cases hre : s.regs.re with
    | false => rfl
    | true => rw [ha hre, Bool.true_and]
  rw [held_step turn h, haccepted, held]

theorem held_step_of_not_arrives (h : s.Looked f) (ha : ¬ s.Arrives f) :
    ((s.step f turn).held f).length + 1 = (s.held f).length := by
  unfold Arrives at ha
  obtain ⟨hre, hfull⟩ := Classical.not_imp.mp ha
  rw [held_step turn h, held, accepted, inFlight, hre, eq_false_of_ne_true hfull]
  simp only [Bool.and_false, Bool.false_eq_true, if_false, if_true, List.length_append,
    List.length_nil, List.length_singleton]
  omega

theorem held_step_length_le (h : s.Looked f) :
    ((s.step f turn).held f).length ≤ (s.held f).length := by
  by_cases ha : s.Arrives f
  · rw [held_step_of_arrives turn h ha]
  · have hlost := held_step_of_not_arrives turn h ha
    omega

end Step

/-! ## Whole runs -/

section Run

variable {f} {strs : List CString} {turns : ℕ → Turn} {t : ℕ}

theorem looked (t : ℕ) : ((run f strs turns).st t).Looked f := by
  have hstart : ((run f strs turns).st 0).Looked f := by
    intro hseen
    cases hseen
  exact ClockedRun.invariant_from _ hstart (fun _ _ h => h.step _) t (Nat.zero_le t)

theorem held_start : (start f strs).held f = strs.flatMap fun s => s.1 := by
  simp only [held, start, f.contents_init, inFlight, puts, messiblePuts_mem]
  rfl

/-- While every byte arrives, all of them are somewhere on their way. -/
theorem held_of_arrives (h : ∀ k < t, ((run f strs turns).st k).Arrives f) :
    ((run f strs turns).st t).held f = strs.flatMap fun s => s.1 := by
  induction t with
  | zero => exact held_start
  | succ t ih =>
    rw [(run f strs turns).next, held_step_of_arrives _ (looked t) (h t (Nat.lt_succ_self t))]
    exact ih fun k hk => h k (Nat.lt_succ_of_lt hk)

/-- While every byte arrives, what the host has read is the front of the strings. -/
theorem host_prefix (h : ∀ k < t, ((run f strs turns).st k).Arrives f) :
    ((run f strs turns).st t).host <+: strs.flatMap fun s => s.1 := by
  rw [← held_of_arrives h, held, List.append_assoc, List.append_assoc]
  exact List.prefix_append _ _

theorem held_length_anti (f : Fifo σ Byte) (strs : List CString) (turns : ℕ → Turn) {k t : ℕ}
    (hkt : k ≤ t) :
    (((run f strs turns).st t).held f).length ≤ (((run f strs turns).st k).held f).length := by
  induction t, hkt using Nat.le_induction with
  | base => exact le_rfl
  | succ t _ ih =>
    rw [(run f strs turns).next]
    exact le_trans (held_step_length_le _ (looked t)) ih

/-- A byte that does not arrive is missing from then on. -/
theorem arrives_of_held (h : ((run f strs turns).st t).held f = strs.flatMap fun s => s.1) :
    ∀ k < t, ((run f strs turns).st k).Arrives f := by
  intro k hkt
  by_contra ha
  have hlost := held_step_of_not_arrives ((run f strs turns).inp k) (looked k) ha
  rw [← (run f strs turns).next] at hlost
  have hbefore := held_length_anti f strs turns (Nat.zero_le k)
  have hafter := held_length_anti f strs turns (k := k + 1) hkt
  have hstart : (((run f strs turns).st 0).held f).length =
      (strs.flatMap fun s => s.1).length := congrArg List.length held_start
  rw [h] at hafter
  omega

end Run

/-- When `messible_puts` loses nothing. For every FIFO, every sequence of calls and every use of the
bus, the bytes of the strings are all accounted for, in order, exactly when each byte so far arrived
at a writable FIFO; and then what the host has read is a prefix of them. -/
theorem puts_kept_iff (strs : List CString) (turns : ℕ → Turn) (t : ℕ) :
    ((∀ k < t, ((run f strs turns).st k).Arrives f) ↔
      ((run f strs turns).st t).held f = strs.flatMap fun s => s.1) ∧
    ((∀ k < t, ((run f strs turns).st k).Arrives f) →
      ((run f strs turns).st t).host <+: strs.flatMap fun s => s.1) :=
  ⟨⟨held_of_arrives, arrives_of_held⟩, host_prefix⟩

/-- The greeting of `custom-bios/main.c`, `Hello World!`. -/
def greeting : CString :=
  ⟨[0x48, 0x65, 0x6c, 0x6c, 0x6f, 0x20, 0x57, 0x6f, 0x72, 0x6c, 0x64, 0x21, 0x0a], by decide⟩

/-- The device takes every third clock, the host the others. -/
def eager (t : ℕ) : Turn :=
  if t % 3 = 0 then .device else if t % 3 = 1 then .hostStatus else .hostOut

theorem puts_kept_iff_greeting :
    ((run (syncFifoBuffered 64) [greeting] eager).st 30).host <+:
      [greeting].flatMap fun s => s.1 :=
  (puts_kept_iff (syncFifoBuffered 64) [greeting] eager 30).2 (by decide +kernel)

/-- Strings that fit the FIFO together are never lost, however slow the host is. -/
theorem short_puts_kept (strs : List CString) (turns : ℕ → Turn) (t : ℕ)
    (hfit : (strs.flatMap fun s => s.1).length ≤ f.depth) :
    ((run f strs turns).st t).host <+: strs.flatMap fun s => s.1 := by
  refine host_prefix fun k _ hre => f.room _ ?_
  have hlen := held_length_anti f strs turns (Nat.zero_le k)
  have hstart : (((run f strs turns).st 0).held f).length =
      (strs.flatMap fun s => s.1).length := congrArg List.length held_start
  simp only [held, inFlight, hre, if_true, List.length_append, List.length_singleton] at hlen hstart
  omega

/-- Strings that do not fit lose a byte if the host reads nothing before they are written. -/
theorem long_puts_lost (strs : List CString) (turns : ℕ → Turn) (t : ℕ)
    (hlong : f.capacity < (strs.flatMap fun s => s.1).length)
    (hdone : ((run f strs turns).st t).inFlight ++ ((run f strs turns).st t).pending = [])
    (hhost : ((run f strs turns).st t).host = []) :
    ¬ ∀ k < t, ((run f strs turns).st k).Arrives f := by
  intro h
  have hheld := held_of_arrives h
  rw [held, List.append_assoc, hdone, hhost, List.nil_append, List.append_nil] at hheld
  have hbound := f.bounded ((run f strs turns).st t).regs.fifo
  rw [hheld] at hbound
  omega

/-- The string of the characters `1` to `n`. -/
def alphabet (n : ℕ) : List Byte := (List.range n).map fun k => BitVec.ofNat 8 (k + 1)

/-- The device writes 66 bytes, the host reads two, the device writes one more, the host the rest.
-/
def lateHost (t : ℕ) : Turn :=
  if t < 66 ∨ t = 70 then .device else if t % 2 = 0 then .hostStatus else .hostOut

/-- A string of 67 characters reaches the host without its 66th. -/
theorem late_host_misses :
    ¬ ∀ (strs : List CString) (turns : ℕ → Turn) (t : ℕ),
      ((run (syncFifoBuffered 64) strs turns).st t).host <+: strs.flatMap fun s => s.1 := by
  intro h
  have hhost := h [⟨alphabet 67, by decide +kernel⟩] lateHost 205
  revert hhost
  decide +kernel

end Sys

end Messible

end Rockling
