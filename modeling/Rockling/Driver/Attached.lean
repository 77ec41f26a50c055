import Rockling.Driver.RegisterFile
import Rockling.Driver.Transcript
import Rockling.Rtl.Wires

/-!
# The devices on the wires

`Bus` says what the DAC and the CODEC do byte by byte. As a device on the wires (`busDevice`) they
hear START, STOP and bits, and pull SDA low for their acknowledges and for the zeros that they send.
To the frame of a call they answer just as `Bus.reply` does (`tx_served`, `rx_served`), and they
leave SDA alone wherever the controller does not listen (`call_quiet`).

This is so for programs that address a device before they talk to it and read only from one that
they have addressed for reading (`Orderly`), and that look at nothing in a status word but RxACK and
ArbLost (`Blind`).
-/

namespace Rockling

open TwoWire (Symbol Reader Device Target byteBits byteOf byteOf_byteBits)

namespace Driver

open RTLI2C

/-! ## The devices on the wires -/

/-- The next byte is sent by a device. -/
def Bus.sends (s : Bus) : Bool :=
  match s.phase with
  | .dacRead _ | .codecRead _ => true
  | _ => false

/-- The DAC and the CODEC on the wires, which do not acknowledge byte `n` where `nack n` is set. One
that has sent a byte goes on with the next one if the controller acknowledges it. -/
def busDevice (nack : ℕ → Bool) : Device Bus where
  start s := { s with phase := .address }
  stop s := { s with phase := .idle }
  sends := Bus.sends
  byte s := s.send.1
  acks s b := !nack s.count && (s.take b).isSome
  took s b :=
    match if nack s.count then none else s.take b with
    | some t => { t with count := s.count + 1 }
    | none => { s with count := s.count + 1 }
  gave s level := { s with phase := if level then .idle else s.send.2, count := s.count + 1 }

/-- Status words in which nothing but RxACK is ever set. -/
def quietWire (nack : ℕ → Bool) (n : ℕ) : Wire := ⟨nack n, 0⟩

/-! ## Programs that talk to devices -/

/-- Replies between which a program cannot tell if it looks at nothing in a status word but the two
error bits, and not at RxACK after a reception. -/
def Alike : (o : ByteOp) → ByteIface.Reply o → ByteIface.Reply o → Prop
  | .tx _ _, status, status' =>
    arbLost status = false ∧ arbLost status' = false ∧ rxAck status = rxAck status'
  | .rx _, reply, reply' =>
    arbLost reply.1 = false ∧ arbLost reply'.1 = false ∧ reply.2 = reply'.2

/-- A program that cannot tell between replies that are alike. -/
abbrev Blind {β : Type} (p : Prog ByteIface β) : Prop := p.Respects Alike

/-- How a conversation stands: nobody is addressed, or a device is and receives, or it sends. -/
inductive Mode where
  | free
  | receives
  | sends
  deriving DecidableEq

/-- After a byte was transmitted. -/
def Mode.sent (b flags : CInt) (nack : Bool) : Mode :=
  if nack || hasFlag flags STOP then .free
  else if hasFlag flags START && b.getLsbD 0 then .sends
  else .receives

/-- A program that begins with START when nobody is addressed, transmits only to devices that
receive, does not stop right after it has addressed one for reading, and receives from devices that
send, until it answers with NACK and STOP. -/
def Orderly {β : Type} : Mode → Prog ByteIface β → Prop
  | m, .ret _ => m ≠ .sends
  | m, .call (.tx b flags) k => m ≠ .sends ∧ (m = .free → hasFlag flags START = true) ∧
      (hasFlag flags STOP = true → (hasFlag flags START && b.getLsbD 0) = false) ∧
      ∀ status : CInt, arbLost status = false → Orderly (.sent b flags (rxAck status)) (k status)
  | m, .call (.rx flags) k => m = .sends ∧ hasFlag flags NACK = hasFlag flags STOP ∧
      ∀ reply : CInt × CInt, arbLost reply.1 = false →
        Orderly (if hasFlag flags STOP then .free else .sends) (k reply)

/-- The devices are where the conversation stands. -/
def Bus.Fits (s : Bus) : Mode → Prop
  | .free => s.sends = false
  | .receives => s.sends = false ∧ s.phase ≠ .address
  | .sends => s.sends = true

/-! ## One call -/

section Call

variable {nack : ℕ → Bool} {s : Bus} {m : Mode}

theorem lowBits_eq (b : BitVec 8) : lowBits 8 b = byteBits b := by
  simp [lowBits, byteBits, List.range_succ, BitVec.getMsbD]

theorem bitsOf_bits (l : List Bool) : bitsOf (l.map .bit) = l := by
  rw [bitsOf, List.filterMap_map]
  exact List.filterMap_some

/-- A START, if there is one. -/
theorem serve_start (flags : CInt) :
    (Target.mk s []).serve (busDevice nack) (if hasFlag flags START then [.start] else []) =
      (if hasFlag flags START then [.start] else [], ⟨s.start flags, []⟩) := by
  rw [Bus.start]
  split_ifs <;> rfl

/-- A STOP, if there is one. -/
theorem serve_stop (flags : CInt) :
    (Target.mk s []).serve (busDevice nack) (if hasFlag flags STOP then [.stop] else []) =
      (if hasFlag flags STOP then [.stop] else [], ⟨s.stop flags, []⟩) := by
  rw [Bus.stop]
  split_ifs <;> rfl

theorem bitsOf_start (flags : CInt) :
    bitsOf (if hasFlag flags START then [.start] else []) = [] := by
  split_ifs <;> rfl

theorem bitsOf_stop (flags : CInt) :
    bitsOf (if hasFlag flags STOP then [.stop] else []) = [] := by
  split_ifs <;> rfl

/-- The frame of a transmission. -/
theorem frame_tx_eq (b flags : CInt) : (ByteOp.tx b flags).frame =
    (if hasFlag flags START then [.start] else []) ++
      (((byteBits (b.setWidth 8)).map .bit ++ [.bit true]) ++
        (if hasFlag flags STOP then [.stop] else [])) := by
  obtain ⟨start, stop, rd, -⟩ := txCommand_fields flags
  have byte : (ByteOp.tx b flags).byte = b.setWidth 8 := by
    rw [ByteOp.byte]
    ext i hi
    interval_cases i <;> simp
  rw [ByteOp.frame, ByteOp.word, wordFrame, start, stop, rd, byte]
  simp [byteBits, List.range_succ]

/-- The frame of a reception. -/
theorem frame_rx_eq (flags : CInt) : (ByteOp.rx flags).frame =
    (List.replicate 8 (.bit true) ++ [.bit (hasFlag flags NACK)]) ++
      (if hasFlag flags STOP then [.stop] else []) := by
  obtain ⟨start, stop, rd, -⟩ := rxCommand_fields flags
  rw [ByteOp.frame, ByteOp.word, wordFrame, start, stop, rd, rxCommand_ack]
  rfl

/-- The status words of a wire without arbitration losses. -/
theorem status_fields (w : Wire) (nacked : Bool) :
    arbLost (w.status nacked) = false ∧ rxAck (w.status nacked) = nacked := by
  have arb := checkArb_status w nacked
  have ack := checkAck_status w nacked
  rw [checkArb_eq] at arb
  rw [checkAck_eq, arb, Bool.or_false] at ack
  exact ⟨arb, ack⟩

/-- A device that has taken a byte without a START in front does not send, nor is it addressed. -/
theorem take_receives {t : Bus} {byte : BitVec 8} (receives : s.Fits .receives)
    (takes : s.take byte = some t) : t.Fits .receives := by
  obtain ⟨waits, named⟩ := receives
  rw [Bus.take] at takes
  cases phase : s.phase <;> rw [phase] at takes
  case address => exact absurd phase named
  all_goals dsimp only at takes
  all_goals try split_ifs at takes
  all_goals cases takes
  all_goals exact ⟨rfl, Phase.noConfusion⟩

/-- A device that has taken its address sends if that asks for it. -/
theorem take_address {t : Bus} {byte : BitVec 8} (address : s.phase = .address)
    (takes : s.take byte = some t) :
    t.Fits (if byte.getLsbD 0 then .sends else .receives) := by
  rw [Bus.take, address] at takes
  dsimp only at takes
  split_ifs at takes with generalCall dacWrite dacRead codecWrite codecRead
  all_goals cases takes
  · rw [generalCall]
    exact ⟨rfl, Phase.noConfusion⟩
  · rw [dacWrite]
    exact ⟨rfl, Phase.noConfusion⟩
  · rw [dacRead]
    rfl
  · rw [codecWrite]
    exact ⟨rfl, Phase.noConfusion⟩
  · rw [codecRead]
    rfl

/-- A START names nobody yet; without one nothing changes. -/
theorem start_receives (flags : CInt) (fits : s.Fits m) (receives : m ≠ .sends) :
    (s.start flags).sends = false := by
  rw [Bus.start]
  split_ifs
  · rfl
  · cases m with
    | free => exact fits
    | receives => exact fits.1
    | sends => exact absurd rfl receives

/-- Once the bytes of a call have been exchanged, a STOP frees the bus. -/
theorem stop_fits {t : Bus} (flags : CInt) {m' : Mode} (fits : t.Fits m') :
    (t.stop flags).Fits (if hasFlag flags STOP then .free else m') := by
  rw [Bus.stop]
  split_ifs
  · exact rfl
  · exact fits

/-- The devices after a transmission that is acknowledged. -/
theorem sent_fits {t : Bus} {b flags : CInt} (fits : s.Fits m) (receives : m ≠ .sends)
    (sta : m = .free → hasFlag flags START = true)
    (takes : (s.start flags).take (b.setWidth 8) = some t) :
    t.Fits (if hasFlag flags START && b.getLsbD 0 then .sends else .receives) := by
  cases start : hasFlag flags START with
  | true =>
    have lsb : (b.setWidth 8).getLsbD 0 = b.getLsbD 0 := by simp
    have address : (s.start flags).phase = .address := by rw [Bus.start, if_pos start]
    have next := take_address address takes
    rw [lsb] at next
    exact next
  | false =>
    have same : s.start flags = s := if_neg (by rw [start]; exact Bool.false_ne_true)
    rw [same] at takes
    cases m with
    | free => rw [sta rfl] at start; cases start
    | receives => exact take_receives fits takes
    | sends => exact absurd rfl receives

/-- The devices acknowledge just the bytes that they take. -/
theorem acks_eq (b flags : CInt) : (busDevice nack).acks (s.start flags) (b.setWidth 8) =
    (s.taken (quietWire nack s.count) b flags).isSome := by
  change (!nack (s.start flags).count && ((s.start flags).take (b.setWidth 8)).isSome) = _
  rw [start_count, Bus.taken, quietWire]
  cases nack s.count <;> rfl

/-- A byte that they take moves them on, any other one only counts. -/
theorem took_eq (b flags : CInt) : (busDevice nack).took (s.start flags) (b.setWidth 8) =
    match s.taken (quietWire nack s.count) b flags with
    | some t => { t with count := s.count + 1 }
    | none => { s.start flags with count := s.count + 1 } := by
  rw [← start_count (s := s) flags]
  rfl

/-- A transmission on the wires. -/
theorem serve_tx (b flags : CInt) (receives : (s.start flags).sends = false) :
    let answer := !(busDevice nack).acks (s.start flags) (b.setWidth 8)
    bitsOf ((Target.mk s []).serve (busDevice nack) (ByteOp.tx b flags).frame).1 =
        byteBits (b.setWidth 8) ++ [answer] ∧
      ((Target.mk s []).serve (busDevice nack) (ByteOp.tx b flags).frame).2 =
        ⟨((busDevice nack).took (s.start flags) (b.setWidth 8)).stop flags, []⟩ := by
  have waits : (busDevice nack).sends (s.start flags) = false := receives
  rw [frame_tx_eq, Target.serve_append, serve_start, Target.serve_append,
    Target.serve_written waits, serve_stop]
  refine ⟨?_, rfl⟩
  rw [bitsOf_append, bitsOf_append, bitsOf_append, bitsOf_start, bitsOf_stop, bitsOf_bits,
    List.nil_append, List.append_nil]
  rfl

/-- **A transmission** is answered as `Bus.reply` says. -/
theorem tx_served {b flags status : CInt} {levels : List Bool} (fits : s.Fits m)
    (receives : m ≠ .sends) (sta : m = .free → hasFlag flags START = true)
    (tells : Tells (.tx b flags) status levels)
    (heard : bitsOf ((Target.mk s []).serve (busDevice nack) (ByteOp.tx b flags).frame).1 =
      levels) :
    ((Target.mk s []).serve (busDevice nack) (ByteOp.tx b flags).frame).2 =
        ⟨(Bus.reply (quietWire nack) (.tx b flags) s).2, []⟩ ∧
      Alike (.tx b flags) status (Bus.reply (quietWire nack) (.tx b flags) s).1 ∧
      (Bus.reply (quietWire nack) (.tx b flags) s).2.Fits (.sent b flags (rxAck status)) := by
  obtain ⟨arb, known⟩ := tells
  have waits := start_receives flags fits receives
  obtain ⟨wires, next⟩ := @serve_tx nack s b flags waits
  have slot : (!(busDevice nack).acks (s.start flags) (b.setWidth 8)) = rxAck status :=
    List.singleton_inj.mp (List.append_inj_right' ((wires.symm.trans heard).trans known) rfl)
  rw [acks_eq] at slot
  rw [next, took_eq]
  cases taken : s.taken (quietWire nack s.count) b flags with
  | none =>
    have reply : Bus.reply (quietWire nack) (.tx b flags) s =
        ((quietWire nack s.count).status true,
          Bus.stop { s.start flags with count := s.count + 1 } flags) := by
      rw [Bus.reply, taken]
    obtain ⟨arb', ack'⟩ := status_fields (quietWire nack s.count) true
    have refused : rxAck status = true := by rw [← slot, taken]; rfl
    rw [reply, refused]
    refine ⟨rfl, ⟨arb, arb', refused.trans ack'.symm⟩, ?_⟩
    rw [Mode.sent, Bool.true_or, if_pos rfl]
    have free : Bus.Fits { s.start flags with count := s.count + 1 } .free := waits
    have stopped := stop_fits flags free
    rwa [ite_self] at stopped
  | some t =>
    have reply : Bus.reply (quietWire nack) (.tx b flags) s =
        ((quietWire nack s.count).status false,
          Bus.stop { t with count := s.count + 1 } flags) := by
      rw [Bus.reply, taken]
    obtain ⟨arb', ack'⟩ := status_fields (quietWire nack s.count) false
    have acked : rxAck status = false := by rw [← slot, taken]; rfl
    have takes : (s.start flags).take (b.setWidth 8) = some t := by
      rw [Bus.taken] at taken
      split_ifs at taken
      exact taken
    rw [reply, acked]
    refine ⟨rfl, ⟨arb, arb', acked.trans ack'.symm⟩, ?_⟩
    have named := sent_fits fits receives sta takes
    have fits' : Bus.Fits { t with count := s.count + 1 }
        (if hasFlag flags START && b.getLsbD 0 then .sends else .receives) := named
    exact stop_fits flags fits'

/-- **A reception** is answered as `Bus.reply` says. -/
theorem rx_served {flags : CInt} {reply : CInt × CInt} {levels : List Bool} (sends : s.Fits .sends)
    (last : hasFlag flags NACK = hasFlag flags STOP) (tells : Tells (.rx flags) reply levels)
    (heard : bitsOf ((Target.mk s []).serve (busDevice nack) (ByteOp.rx flags).frame).1 =
      levels) :
    ((Target.mk s []).serve (busDevice nack) (ByteOp.rx flags).frame).2 =
        ⟨(Bus.reply (quietWire nack) (.rx flags) s).2, []⟩ ∧
      Alike (.rx flags) reply (Bus.reply (quietWire nack) (.rx flags) s).1 ∧
      (Bus.reply (quietWire nack) (.rx flags) s).2.Fits
        (if hasFlag flags STOP then .free else .sends) := by
  obtain ⟨arb, byte, received, known⟩ := tells
  have sends' : (busDevice nack).sends s = true := sends
  rw [frame_rx_eq, Target.serve_append, Target.serve_given sends', serve_stop] at heard ⊢
  rw [bitsOf_append, bitsOf_append, bitsOf_bits, bitsOf_stop, List.append_nil, known,
    lowBits_eq] at heard
  have same : byteBits s.send.1 = byteBits byte := (List.append_inj' heard rfl).1
  have same' := congrArg byteOf same
  rw [byteOf_byteBits, byteOf_byteBits] at same'
  refine ⟨?_, ⟨arb, (status_fields _ _).1, ?_⟩, ?_⟩
  · change Target.mk (Bus.stop { s with
      phase := if hasFlag flags NACK then .idle else s.send.2, count := s.count + 1 } flags) [] =
        ⟨Bus.stop { s with phase := s.send.2, count := s.count + 1 } flags, []⟩
    rw [last, Bus.stop, Bus.stop]
    split_ifs <;> rfl
  · rw [received, ← same']
    rfl
  · have fits : Bus.Fits { s with phase := s.send.2, count := s.count + 1 } .sends := by
      have sends : s.sends = true := sends
      rw [Bus.sends] at sends
      change Bus.sends _ = true
      rw [Bus.sends, Bus.send]
      split at sends
      · next second phase => rw [phase]; cases second <;> rfl
      · next second phase => rw [phase]; cases second <;> rfl
      · cases sends
    exact stop_fits flags fits

/-! ### While the controller does not listen -/

theorem bitsOf_cons (symbol : Symbol) (l : List Symbol) :
    bitsOf (symbol :: l) = bitsOf [symbol] ++ bitsOf l := bitsOf_append [symbol] l

/-- There are nine bits in the frame of every call. -/
theorem length_bitsOf_frame (o : ByteOp) : (bitsOf o.frame).length = 9 := by
  rw [ByteOp.frame, bitsOf_wordFrame]
  split_ifs <;> rfl

/-- Devices that receive go on doing so, whatever is shown to them, until a byte is complete. -/
theorem serve_waits {x : Target Bus} (receives : x.dev.sends = false) {shown : List Symbol}
    (room : x.bits.length + (bitsOf shown).length < 8) :
    (x.serve (busDevice nack) shown).2.dev.sends = false ∧
      (x.serve (busDevice nack) shown).2.bits.length < 8 := by
  induction shown generalizing x with
  | nil => exact ⟨receives, room⟩
  | cons symbol shown ih =>
    rw [bitsOf_cons, List.length_append] at room
    rw [Target.serve]
    cases symbol with
    | start =>
      refine ih rfl ?_
      have room : x.bits.length + (0 + (bitsOf shown).length) < 8 := room
      exact lt_of_le_of_lt (by simp [Target.step, Target.onWires]) room
    | stop =>
      refine ih rfl ?_
      have room : x.bits.length + (0 + (bitsOf shown).length) < 8 := room
      exact lt_of_le_of_lt (by simp [Target.step, Target.onWires]) room
    | glitch =>
      refine ih receives ?_
      have room : x.bits.length + (0 + (bitsOf shown).length) < 8 := room
      rw [Nat.zero_add] at room
      exact room
    | bit level =>
      have room : x.bits.length + (1 + (bitsOf shown).length) < 8 := room
      have short : x.bits.length < 8 := by omega
      have next : x.step (busDevice nack) (x.onWires (busDevice nack) (.bit level)) =
          ⟨x.dev, x.bits ++ [level && !x.pulls (busDevice nack)]⟩ := if_pos short
      rw [next]
      refine ih receives ?_
      rw [List.length_append, List.length_singleton]
      omega

/-- So they leave SDA alone. -/
theorem serve_quiet {x : Target Bus} (receives : x.dev.sends = false) {shown : List Symbol}
    (room : x.bits.length + (bitsOf shown).length < 8) :
    (x.serve (busDevice nack) shown).2.pulls (busDevice nack) = false := by
  obtain ⟨waits, short⟩ :
      (busDevice nack).sends (x.serve (busDevice nack) shown).2.dev = false ∧
        (x.serve (busDevice nack) shown).2.bits.length < 8 := serve_waits receives room
  rw [Target.pulls, if_pos short, waits]
  rfl

/-- Where no more bits remain than those of the tail, all the others have been shown. -/
theorem append_cut {front tail shown rest : List Symbol} {c : Bool}
    (whole : shown ++ rest = (front ++ [.bit c]) ++ tail)
    (few : (bitsOf rest).length ≤ (bitsOf tail).length) :
    ∃ shown', shown = (front ++ [.bit c]) ++ shown' ∧ tail = shown' ++ rest := by
  rcases List.append_eq_append_iff.mp whole with ⟨cut, eq, rfl⟩ | ⟨shown', rfl, rfl⟩
  · rcases List.eq_nil_or_concat cut with rfl | ⟨cut, last, rfl⟩
    · exact ⟨[], by rw [eq, List.append_nil, List.append_nil], rfl⟩
    · rw [List.concat_eq_append, ← List.append_assoc] at eq
      obtain ⟨-, rfl⟩ := List.append_singleton_inj.mp eq
      have one : (bitsOf [.bit c]).length = 1 := rfl
      rw [List.concat_eq_append, bitsOf_append, bitsOf_append, List.length_append,
        List.length_append, one] at few
      omega
  · exact ⟨shown', rfl, rfl⟩

/-- Outside the bits that the controller listens to, the devices leave SDA alone: in a transmission
until its last bit and once all of them have been shown. -/
theorem tx_quiet {b flags : CInt} {shown rest : List Symbol} (fits : s.Fits m)
    (receives : m ≠ .sends) (sta : m = .free → hasFlag flags START = true)
    (single : hasFlag flags STOP = true → (hasFlag flags START && b.getLsbD 0) = false)
    (whole : shown ++ rest = (ByteOp.tx b flags).frame)
    (left : 2 ≤ (bitsOf rest).length ∨ (bitsOf rest = [] ∧ hasFlag flags STOP = true)) :
    ((Target.mk s []).serve (busDevice nack) shown).2.pulls (busDevice nack) = false := by
  have waits := start_receives flags fits receives
  rcases left with two | ⟨none, stop⟩
  · have receives : s.sends = false := by
      cases m with
      | free => exact fits
      | receives => exact fits.1
      | sends => exact absurd rfl receives
    have all := congrArg (fun l => (bitsOf l).length) whole
    simp only [bitsOf_append, List.length_append, length_bitsOf_frame] at all
    refine serve_quiet receives ?_
    rw [List.length_nil]
    omega
  · rw [frame_tx_eq, ← List.append_assoc, ← List.append_assoc] at whole
    obtain ⟨shown', rfl, tail⟩ := append_cut whole (by rw [none]; exact Nat.zero_le _)
    have taken : ((busDevice nack).took (s.start flags) (b.setWidth 8)).sends = false := by
      rw [took_eq]
      cases taken : s.taken (quietWire nack s.count) b flags with
      | none => exact waits
      | some t =>
        have takes : (s.start flags).take (b.setWidth 8) = some t := by
          rw [Bus.taken] at taken
          split_ifs at taken
          exact taken
        have named := sent_fits fits receives sta takes
        rw [single stop, if_neg Bool.false_ne_true] at named
        exact named.1
    have served := Target.serve_written (d := busDevice nack)
      (s := s.start flags) waits (b.setWidth 8)
    rw [List.append_assoc, List.append_assoc, Target.serve_append, serve_start,
      ← List.append_assoc, Target.serve_append, served]
    refine serve_quiet taken ?_
    have bits := congrArg bitsOf tail
    rw [bitsOf_stop, bitsOf_append] at bits
    rw [(List.append_eq_nil_iff.mp bits.symm).1]
    exact Nat.succ_pos 7

/-- In a reception they do so in its last bit and once all of them have been shown. -/
theorem rx_quiet {flags : CInt} {shown rest : List Symbol} (sends : s.Fits .sends)
    (last : hasFlag flags NACK = hasFlag flags STOP)
    (whole : shown ++ rest = (ByteOp.rx flags).frame)
    (left : (bitsOf rest).length = 1 ∨ (bitsOf rest = [] ∧ hasFlag flags STOP = true)) :
    ((Target.mk s []).serve (busDevice nack) shown).2.pulls (busDevice nack) = false := by
  have sends' : (busDevice nack).sends s = true := sends
  rw [frame_rx_eq] at whole
  rcases left with one | ⟨none, stop⟩
  · -- the answer is to come, all that has been shown is the byte
    have answer : (bitsOf ([.bit (hasFlag flags NACK)] ++
        if hasFlag flags STOP then [.stop] else [])).length = 1 := by
      rw [bitsOf_append, bitsOf_stop]
      rfl
    rw [List.append_assoc, List.replicate_succ'] at whole
    obtain ⟨shown', rfl, tail⟩ := append_cut whole (by rw [one, answer])
    have none : shown' = [] := by
      cases shown' with
      | nil => rfl
      | cons symbol shown' =>
        rw [tail, bitsOf_append, List.length_append, one] at answer
        obtain ⟨rfl, -⟩ := List.cons.inj tail
        rw [bitsOf_cons, List.length_append] at answer
        have one : (bitsOf [.bit (hasFlag flags NACK)]).length = 1 := rfl
        omega
    rw [none, List.append_nil, ← List.replicate_succ']
    have served := Target.serve_sends (d := busDevice nack) (k := 0) sends' (Nat.zero_add 8)
    rw [List.take_zero, List.drop_zero] at served
    rw [served, Target.pulls, sends']
    rfl
  · obtain ⟨shown', rfl, tail⟩ := append_cut whole (by rw [none]; exact Nat.zero_le _)
    have served := Target.serve_given (d := busDevice nack) sends' (hasFlag flags NACK)
    rw [Target.serve_append, served, last, stop]
    refine serve_quiet rfl ?_
    have bits := congrArg bitsOf tail
    rw [bitsOf_stop, bitsOf_append] at bits
    rw [(List.append_eq_nil_iff.mp bits.symm).1]
    exact Nat.succ_pos 7

/-! ### Calls of an orderly program -/

variable {β : Type} {o : ByteOp} {k : ByteIface.Reply o → Prog ByteIface β}

/-- **A call of an orderly program** is answered as `Bus.reply` says, and the rest of the program is
orderly where the conversation stands then. -/
theorem call_served {reply : ByteIface.Reply o} {levels : List Bool}
    (orderly : Orderly m (.call o k)) (fits : s.Fits m) (tells : Tells o reply levels)
    (heard : bitsOf ((Target.mk s []).serve (busDevice nack) o.frame).1 = levels) :
    ∃ m', ((Target.mk s []).serve (busDevice nack) o.frame).2 =
        ⟨(Bus.reply (quietWire nack) o s).2, []⟩ ∧
      Alike o reply (Bus.reply (quietWire nack) o s).1 ∧
      (Bus.reply (quietWire nack) o s).2.Fits m' ∧ Orderly m' (k reply) := by
  cases o with
  | tx b flags =>
    obtain ⟨receives, sta, -, goesOn⟩ := orderly
    obtain ⟨next, alike, fits'⟩ := tx_served fits receives sta tells heard
    exact ⟨_, next, alike, fits', goesOn reply tells.1⟩
  | rx flags =>
    obtain ⟨rfl, last, goesOn⟩ := orderly
    obtain ⟨next, alike, fits'⟩ := rx_served fits last tells heard
    exact ⟨_, next, alike, fits', goesOn reply tells.1⟩

/-- **In a call of an orderly program** the devices leave SDA alone where the controller does not
listen. -/
theorem call_quiet {shown rest : List Symbol} (orderly : Orderly m (.call o k)) (fits : s.Fits m)
    (whole : shown ++ rest = o.frame)
    (left : (2 ≤ (bitsOf rest).length ∧ (o.word.getLsbD 5 = false ∨ o.word.getLsbD 7 = true)) ∨
      ((bitsOf rest).length = 1 ∧ o.word.getLsbD 5 = true) ∨
      ((bitsOf rest).length = 0 ∧ o.word.getLsbD 6 = true)) :
    ((Target.mk s []).serve (busDevice nack) shown).2.pulls (busDevice nack) = false := by
  cases o with
  | tx b flags =>
    obtain ⟨receives, sta, single, -⟩ := orderly
    obtain ⟨-, stop, rd, -⟩ := txCommand_fields flags
    rw [ByteOp.word, rd, stop] at left
    refine tx_quiet fits receives sta single whole ?_
    rcases left with ⟨two, -⟩ | ⟨-, reads⟩ | ⟨none, stops⟩
    · exact Or.inl two
    · cases reads
    · exact Or.inr ⟨List.eq_nil_of_length_eq_zero none, stops⟩
  | rx flags =>
    obtain ⟨rfl, last, -⟩ := orderly
    obtain ⟨start, stop, rd, -⟩ := rxCommand_fields flags
    rw [ByteOp.word, rd, start, stop] at left
    refine rx_quiet fits last whole ?_
    rcases left with ⟨-, writes | starts⟩ | ⟨one, -⟩ | ⟨none, stops⟩
    · cases writes
    · cases starts
    · exact Or.inl one
    · exact Or.inr ⟨List.eq_nil_of_length_eq_zero none, stops⟩

end Call

end Driver

end Rockling
