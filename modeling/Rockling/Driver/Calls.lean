import Rockling.Driver.Handshake

/-!
# Rules for the driver's calls

What the CPU does from a clock on, one access at a time (`acts`), one polling loop at a time
(`polled`) and one call of `i2c_tx_char` or `i2c_rx_char` at a time (`answers`): it gets to the end
of it, or hangs in it for ever. An answered call wrote one command and saw it to its end
(`Answered`), and the registers it read say what happened on the bus meanwhile (`Answered.outcome`).
-/

namespace Rockling

namespace Driver

open RTLI2C

/-! ## What happens on the bus -/

/-- An arbitration loss is signalled in one of the clocks from `a` to before `b`. -/
abbrev LossIn (r : Run) (a b : ℕ) : Prop := Within (fun t => (r.st t).al = true) a b

/-- The acknowledge slot of a transmission ends in this clock, and the answer is NACK. -/
def nacked (s : RTLI2C) : Bool := s.slotOver && s.byte.bit.dout && s.write

/-- A transmitted byte is answered with NACK in one of the clocks from `a` to before `b`. -/
abbrev NackIn (r : Run) (a b : ℕ) : Prop := Within (fun t => nacked (r.st t) = true) a b

/-- The data bits of receptions that enter the shift register in the `n` clocks from `a` on. -/
def received (r : Run) (a : ℕ) : ℕ → List Bool
  | 0 => []
  | n + 1 => received r a n ++
      if (r.st (a + n)).byte.shift && (r.st (a + n)).read then [(r.st (a + n)).byte.bit.dout]
      else []

section

variable {r : Run} {a b c : ℕ}

theorem received_add (r : Run) (a m n : ℕ) :
    received r a (m + n) = received r a m ++ received r (a + m) n := by
  induction n with
  | zero => simp [received]
  | succ n ih => rw [← Nat.add_assoc, received, ih, received, List.append_assoc,
      Nat.add_assoc a m n]

theorem received_append (low : a ≤ b) (high : b ≤ c) :
    received r a (c - a) = received r a (b - a) ++ received r b (c - b) := by
  rw [show c - a = (b - a) + (c - b) by omega, received_add, show a + (b - a) = b by omega]

/-- Nothing is received while the shift register stands still. -/
theorem received_still {n : ℕ} (still : ∀ t, a ≤ t → t < a + n → (r.st t).byte.shift = false) :
    received r a n = [] := by
  induction n with
  | zero => rfl
  | succ n ih =>
    rw [received, ih fun t low high => still t low (by omega), still (a + n) (by omega) (by omega)]
    rfl

/-- The acknowledge bits delivered after clock `w`, before clock `w + n + 1`. -/
theorem mem_ackLevels {w n : ℕ} {bit : Bool} :
    bit ∈ ackLevels r w n ↔
      ∃ t, w < t ∧ t ≤ w + n ∧ (r.st t).slotOver = true ∧ (r.st t).byte.bit.dout = bit := by
  induction n with
  | zero =>
    simp only [ackLevels, List.not_mem_nil, false_iff]
    rintro ⟨t, after, before, -⟩
    omega
  | succ n ih =>
    rw [ackLevels, List.mem_append, ih]
    constructor
    · rintro (⟨t, after, before, slot, level⟩ | last)
      · exact ⟨t, after, by omega, slot, level⟩
      · split at last
        next slot => exact ⟨w + n + 1, by omega, by omega, slot, (List.mem_singleton.mp last).symm⟩
        next => cases last
    · rintro ⟨t, after, before, slot, level⟩
      rcases Nat.lt_or_ge (w + n) t with last | early
      · obtain rfl : t = w + n + 1 := by omega
        exact Or.inr (by rw [if_pos slot, level]; exact List.mem_singleton_self _)
      · exact Or.inl ⟨t, after, early, slot, level⟩

/-- What a command receives is what enters the shift register, if it is a reception. -/
theorem received_command {w n : ℕ} {rd : Bool}
    (word : ∀ t, w < t → t ≤ w + n → (r.st t).byte.shift = true → (r.st t).read = rd) :
    received r (w + 1) n = if rd then dataLevels r w n else [] := by
  induction n with
  | zero => cases rd <;> rfl
  | succ n ih =>
    have here := word (w + n + 1) (by omega) (by omega)
    rw [received, dataLevels, ih fun t after before => word t after (by omega),
      show w + 1 + n = w + n + 1 by omega]
    cases shift : (r.st (w + n + 1)).byte.shift with
    | false => cases rd <;> simp
    | true => cases rd <;> simp [here shift]

end

namespace DriverRun

variable {β : Type} {v : BitVec 32} {jobs : ℕ → Prog ByteIface β} {r : Run}

/-! ## One access -/

/-- The CPU is in job `n` and has not returned from it. -/
def InJob (d : DriverRun v jobs r) (n t : ℕ) : Prop :=
  ∃ g : Stage β, g.isRet = false ∧ d.cpu t = .job n g.prog

/-- The CPU makes its next access, or none for ever. -/
theorem acts (d : DriverRun v jobs r) (a : ℕ) :
    (∃ z, a ≤ z ∧ d.access z = true ∧ (∀ t, a ≤ t → t ≤ z → d.cpu t = d.cpu a) ∧
        ∀ t reg, a ≤ t → t < z → (r.inp t).write reg = none) ∨
      ∀ t, a ≤ t → d.cpu t = d.cpu a ∧ d.access t = false := by
  have keeps : ∀ t, a ≤ t → d.cpu t = d.cpu a → ¬ d.access t = true → d.cpu (t + 1) = d.cpu a :=
    fun t _ same pause => (d.next_of_pause (eq_false_of_ne_true pause)).trans same
  rcases stays_until d.cpu (fun t => d.access t = true) keeps with
    ⟨z, later, acts, same, pause⟩ | stays
  · exact Or.inl ⟨z, later, acts, same, fun t reg low high =>
      d.write_of_pause (eq_false_of_ne_true (pause t low high)) reg⟩
  · exact Or.inr fun t later => ⟨(stays t later).1, eq_false_of_ne_true (stays t later).2⟩

/-- The CPU polls until it reads `TIP` clear, or for ever. -/
theorem polled (d : DriverRun v jobs r) {a n : ℕ} {o : ByteOp}
    {k : ByteIface.Reply o → Prog ByteIface β} (cpu : d.cpu a = .job n (Stage.polling o k).prog) :
    (∃ u, a ≤ u ∧ d.polls u = true ∧ (r.st u).tip = false ∧
        (∀ t, a ≤ t → t ≤ u → d.cpu t = d.cpu a) ∧
        d.cpu (u + 1) = .job n (Stage.afterPoll o k ((r.st u).readCsr .status)).prog) ∨
      ∀ t, a ≤ t → d.cpu t = d.cpu a ∧ (d.access t = true → (r.st t).tip = true) := by
  have next : ∀ t, d.cpu t = d.cpu a → d.cpu (t + 1) =
      if d.access t then
        .job n (if (r.st t).tip then Stage.polling o k
          else Stage.afterPoll o k ((r.st t).readCsr .status)).prog
      else .job n (Stage.polling o k).prog := fun t same => d.stage_next (same.trans cpu)
  have keeps : ∀ t, a ≤ t → d.cpu t = d.cpu a → ¬ (d.access t = true ∧ (r.st t).tip = false) →
      d.cpu (t + 1) = d.cpu a := by
    intro t _ same busy
    rw [next t same, cpu]
    split
    next acts =>
      rw [if_pos (eq_true_of_ne_false fun tip => busy ⟨acts, tip⟩)]
    next => rfl
  rcases stays_until d.cpu (fun t => d.access t = true ∧ (r.st t).tip = false) keeps with
    ⟨u, later, ⟨acts, tip⟩, same, -⟩ | stays
  · refine Or.inl ⟨u, later, ?_, tip, same, ?_⟩
    · rw [polls, acts, same u later le_rfl, cpu]
      rfl
    · rw [next u (same u later le_rfl), if_pos acts, tip]
      rfl
  · exact Or.inr fun t later => ⟨(stays t later).1, fun acts =>
      eq_true_of_ne_false fun tip => (stays t later).2 ⟨acts, tip⟩⟩

/-! ## One call -/

/-- The CPU never returns from job `n`: it makes no access any more, or polls for ever. -/
structure Hangs (d : DriverRun v jobs r) (n a : ℕ) : Prop where
  stays : ∀ t, a ≤ t → d.InJob n t
  why : (∃ m, ∀ t, m ≤ t → d.access t = false) ∨
    ∃ w x, (r.inp w).write .command = some x ∧
      ∀ t, w < t → (r.inp t).write .command = none ∧ (d.access t = true → (r.st t).tip = true)

theorem Hangs.earlier {d : DriverRun v jobs r} {n a b : ℕ} (h : d.Hangs n b)
    (before : ∀ t, a ≤ t → t < b → d.InJob n t) : d.Hangs n a where
  stays := fun t low => (Nat.lt_or_ge t b).elim (before t low) (h.stays t)
  why := h.why

/-- From clock `a` to before clock `b` the CPU is in job `n`, writes the one command `o`, in clock
`w`, and makes its last poll in clock `u`. -/
structure Answered (d : DriverRun v jobs r) (n : ℕ) (o : ByteOp) (a b w u : ℕ) : Prop where
  since : a ≤ w
  later : w < u
  ended : u < b
  stays : ∀ t, a ≤ t → t < b → d.InJob n t
  write : (r.inp w).write .command = some o.word
  only : ∀ t, a ≤ t → t < b → t ≠ w → (r.inp t).write .command = none
  poll : d.polls u = true
  tip : (r.st u).tip = false
  last : ∀ t, u < t → t < b → d.polls t = false

/-- An access at stage `g` that writes the command `o`. -/
structure Stage.Issues (g : Stage β) (o : ByteOp) (k : ByteIface.Reply o → Prog ByteIface β) :
    Prop where
  isRet : g.isRet = false
  writes : g.writes = some (.command, o.word)
  next : ∀ s, g.next s = .polling o k

/-- A command is written and polled for, or the CPU hangs. -/
theorem issues (d : DriverRun v jobs r) {a n : ℕ} {g : Stage β} {o : ByteOp}
    {k : ByteIface.Reply o → Prog ByteIface β} (issue : Stage.Issues g o k)
    (cpu : d.cpu a = .job n g.prog) :
    (∃ w u, d.Answered n o a (u + 1) w u ∧
      d.cpu (u + 1) = .job n (Stage.afterPoll o k ((r.st u).readCsr .status)).prog) ∨
      d.Hangs n a := by
  rcases d.acts a with ⟨w, since, acts, same, quiet⟩ | never
  · have here := (same w since le_rfl).trans cpu
    have write : (r.inp w).write .command = some o.word := by
      rw [d.stage_write here, if_pos acts, issue.writes]
      rfl
    have next : d.cpu (w + 1) = .job n (Stage.polling o k).prog := by
      rw [d.stage_next here, if_pos acts, issue.isRet, issue.next]
      rfl
    have before : ∀ t, a ≤ t → t ≤ w → d.InJob n t := fun t low high =>
      ⟨g, issue.isRet, (same t low high).trans cpu⟩
    have silent : ∀ t, d.cpu t = d.cpu (w + 1) → (r.inp t).write .command = none := by
      intro t same
      rw [d.stage_write (same.trans next)]
      simp [Stage.writes]
    rcases d.polled next with ⟨u, later, poll, tip, polling, after⟩ | never
    · refine Or.inl ⟨w, u, ?_, after⟩
      constructor
      case since => exact since
      case later => omega
      case ended => omega
      case write => exact write
      case poll => exact poll
      case tip => exact tip
      case last => exact fun t low high => by omega
      case stays =>
        intro t low high
        rcases Nat.lt_or_ge w t with second | first
        · exact ⟨_, rfl, (polling t second (by omega)).trans next⟩
        · exact before t low first
      case only =>
        intro t low high ne
        rcases Nat.lt_or_ge w t with second | first
        · exact silent t (polling t second (by omega))
        · exact quiet t _ low (by omega)
    · refine Or.inr (Hangs.earlier (b := w + 1) ⟨fun t low => ?_, Or.inr ⟨w, o.word, write, ?_⟩⟩
        fun t low high => before t low (by omega))
      · exact ⟨_, rfl, (never t low).1.trans next⟩
      · exact fun t low => ⟨silent t (never t low).1, (never t low).2⟩
  · exact Or.inr ⟨fun t low => ⟨g, issue.isRet, (never t low).1.trans cpu⟩,
      Or.inl ⟨a, fun t low => (never t low).2⟩⟩

theorem Answered.earlier {d : DriverRun v jobs r} {n a b c w u : ℕ} {o : ByteOp}
    (h : d.Answered n o b c w u) (le : a ≤ b) (before : ∀ t, a ≤ t → t < b → d.InJob n t)
    (quiet : ∀ t, a ≤ t → t < b → (r.inp t).write .command = none) : d.Answered n o a c w u :=
  { h with
    since := by have := h.since; omega
    stays := fun t low high => (Nat.lt_or_ge t b).elim (before t low) (h.stays t · high)
    only := fun t low high ne => (Nat.lt_or_ge t b).elim (quiet t low) (h.only t · high ne) }

theorem Answered.longer {d : DriverRun v jobs r} {n a b c w u : ℕ} {o : ByteOp}
    (h : d.Answered n o a b w u) (le : b ≤ c) (after : ∀ t, b ≤ t → t < c → d.InJob n t)
    (quiet : ∀ t, b ≤ t → t < c → (r.inp t).write .command = none)
    (noPoll : ∀ t, b ≤ t → t < c → d.polls t = false) : d.Answered n o a c w u :=
  { h with
    ended := by have := h.ended; omega
    stays := fun t low high => (Nat.lt_or_ge t b).elim (h.stays t low) (after t · high)
    only := fun t low high ne => (Nat.lt_or_ge t b).elim (h.only t low · ne) (quiet t · high)
    last := fun t low high => (Nat.lt_or_ge t b).elim (h.last t low) (noPoll t · high) }

/-- The reply of a call that reads the status in `s` and RXR in `s'`. -/
def replyAt (s s' : RTLI2C) : (o : ByteOp) → ByteIface.Reply o
  | .tx _ _ => s.readCsr .status
  | .rx _ => (s.readCsr .status, s'.readCsr .rxr)

/-- **A call is answered**, or the CPU hangs in it. -/
theorem answers (d : DriverRun v jobs r) {a n : ℕ} {o : ByteOp}
    {k : ByteIface.Reply o → Prog ByteIface β}
    (cpu : d.cpu a = .job n (Stage.ready (.call o k)).prog) :
    (∃ b w u, d.Answered n o a b w u ∧
      d.cpu b = .job n (Stage.ready (k (replyAt (r.st u) (r.st (b - 1)) o))).prog) ∨
      d.Hangs n a := by
  cases o with
  | tx tx flags =>
    -- TXR first, then the command
    rcases d.acts a with ⟨z, since, acts, same, -⟩ | never
    · have before : ∀ t, a ≤ t → t < z + 1 →
          d.cpu t = .job n (Stage.ready (.call (.tx tx flags) k)).prog :=
        fun t low high => (same t low (by omega)).trans cpu
      have inJob : ∀ t, a ≤ t → t < z + 1 → d.InJob n t := fun t low high =>
        ⟨_, rfl, before t low high⟩
      have silent : ∀ t, a ≤ t → t < z + 1 → (r.inp t).write .command = none := fun t low high => by
        rw [d.stage_write (before t low high)]
        simp [Stage.writes]
      have next : d.cpu (z + 1) = .job n (Stage.command (.tx tx flags) k).prog := by
        rw [d.stage_next (before z since (by omega)), if_pos acts]
        rfl
      rcases d.issues ⟨rfl, rfl, fun _ => rfl⟩ next with ⟨w, u, answered, after⟩ | hangs
      · exact Or.inl ⟨u + 1, w, u, answered.earlier (by omega) inJob silent, after⟩
      · exact Or.inr (hangs.earlier inJob)
    · exact Or.inr ⟨fun t low => ⟨_, rfl, (never t low).1.trans cpu⟩,
        Or.inl ⟨a, fun t low => (never t low).2⟩⟩
  | rx flags =>
    rcases d.issues (o := .rx flags) (k := k) ⟨rfl, rfl, fun _ => rfl⟩ cpu with
      ⟨w, u, answered, after⟩ | hangs
    · -- then RXR
      rcases d.acts (u + 1) with ⟨f, later, reads, same, -⟩ | never
      · have fetch : ∀ t, u + 1 ≤ t → t < f + 1 →
            d.cpu t = .job n (Stage.fetch ((r.st u).readCsr .status) k).prog :=
          fun t low high => (same t low (by omega)).trans after
        refine Or.inl ⟨f + 1, w, u, answered.longer (by omega) (fun t low high => ?_)
          (fun t low high => ?_) (fun t low high => ?_), ?_⟩
        · exact ⟨_, rfl, fetch t low high⟩
        · rw [d.stage_write (fetch t low high)]
          simp [Stage.writes]
        · rw [polls, fetch t low high]
          exact Bool.and_false _
        · rw [d.stage_next (fetch f later (by omega)), if_pos reads]
          rfl
      · refine Or.inr (Hangs.earlier (b := u + 1) ⟨fun t low => ?_, Or.inl ⟨u + 1, ?_⟩⟩
          answered.stays)
        · exact ⟨_, rfl, (never t low).1.trans after⟩
        · exact fun t low => (never t low).2
    · exact Or.inr hangs

section

variable {p t₀ : ℕ} {hold : ℕ → Bool} (d : DriverRun v jobs r) (run : EnabledRun p t₀ r)
  (boot : d.cpu t₀ = .init (.ret ())) (hp : 3 ≤ p) (scl : Stretching r hold)

include run boot hp scl

omit run boot hp scl in
theorem polls_ready (q : Prog ByteIface β) : Driver.polls (Stage.ready q).prog = false := by
  cases q with
  | ret x => rfl
  | call o k => cases o <;> rfl

/-- The core rests at every stage at which the CPU does not poll. -/
theorem rest_of_stage {t n : ℕ} {g : Stage β} (late : t₀ ≤ t) (cpu : d.cpu t = .job n g.prog)
    (noPoll : Driver.polls g.prog = false) : (r.st t).InPhase .resting := by
  cases d.coupled run boot hp scl late with
  | booted _ rest => exact rest
  | stage n' g' cpu' fits =>
    cases g' with
    | polling o k =>
      rw [cpu'] at cpu
      rw [← (Cpu.job.inj cpu).2] at noPoll
      cases noPoll
    | _ => exact fits

/-- The core rests before a call and after it. -/
theorem rest_of_ready {t n : ℕ} {q : Prog ByteIface β} (late : t₀ ≤ t)
    (cpu : d.cpu t = .job n (Stage.ready q).prog) : (r.st t).InPhase .resting :=
  d.rest_of_stage run boot hp scl late cpu (polls_ready q)

/-- A core that rests hears nothing. -/
theorem still_of_rest {t : ℕ} (late : t₀ ≤ t) (rest : (r.st t).InPhase .resting) :
    (r.st t).al = false ∧ (r.st t).slotOver = false ∧ (r.st t).byte.shift = false := by
  obtain ⟨k, a, line, sound⟩ := d.sound_at run boot hp scl late
  exact ⟨rest.2.2.2.1, slotOver_of_idle rest.2.1, (sound.inStep.settled rest.2.1).2⟩

/-- **What an answered call has seen.** Either an arbitration was lost, and then `ArbLost` is set
and `RxACK` clear; or none was lost, `RxACK` is the answer to a transmitted byte, and RXR holds the
bits of a reception. -/
theorem outcome {n a b w u : ℕ} {o : ByteOp} (h : d.Answered n o a b w u) (late : t₀ ≤ a)
    (rest : (r.st a).InPhase .resting) :
    ((r.st b).InPhase .resting ∧ (r.st b).arbLost = (r.st u).arbLost ∧
      (r.st (b - 1)).byte.sr = (r.st u).byte.sr) ∧
    ((LossIn r a b ∧ (r.st u).byte.ackOut = false ∧ (r.st u).arbLost = true) ∨
      (¬ LossIn r a b ∧ (r.st u).arbLost = ((r.st a).arbLost && !o.word.getLsbD 7) ∧
        (NackIn r a b ↔ o.word.getLsbD 4 = true ∧ (r.st u).byte.ackOut = true) ∧
        received r a (b - a) = if o.word.getLsbD 5 then lowBits 8 (r.st u).byte.sr else [])) := by
  have since := h.since
  have later := h.later
  have ended := h.ended
  have before : ∀ t, a ≤ t → t ≤ w → (r.st t).InPhase .resting ∧
      (r.st t).arbLost = (r.st a).arbLost := by
    intro t low high
    obtain ⟨rest', -, -, arb⟩ := d.rests_until run boot hp scl late rest low
      fun y low high => h.only y low (by omega) (by omega)
    exact ⟨rest', arb⟩
  have restU := d.rest_of_poll run boot hp scl (by omega) h.poll h.tip
  have after := fun t (low : u ≤ t) (high : t ≤ b) =>
    d.rests_until run boot hp scl (by omega) restU low
      fun y low high => h.only y (by omega) (by omega) (by omega)
  have only : ∀ y, w < y → y < u → (r.inp y).write .command = none :=
    fun y low high => h.only y (by omega) (by omega) (by omega)
  refine ⟨⟨(after b (by omega) le_rfl).1, (after b (by omega) le_rfl).2.2.2,
    (after (b - 1) (by omega) (by omega)).2.1⟩, ?_⟩
  have outside : ∀ t, a ≤ t → t < b → ¬ (w < t ∧ t < u) →
      (r.st t).al = false ∧ (r.st t).slotOver = false ∧ (r.st t).byte.shift = false := by
    intro t low high out
    rcases Nat.lt_or_ge w t with past | early
    · exact d.still_of_rest run boot hp scl (by omega) (after t (by omega) high.le).1
    · exact d.still_of_rest run boot hp scl (by omega) (before t low early).1
  have word : ∀ t, w < t → t < u → (r.st t).byte.cState ≠ .idle →
      (r.st t).command = o.word.setWidth 8 := fun t low high =>
    d.word_of_busy run boot hp scl (by omega) h.write low fun y low high => only y low (by omega)
  cases d.ended run boot hp scl (by omega) h.write later restU only with
  | lost e after' before' al calm never ack arb =>
    exact Or.inl ⟨⟨e, by omega, by omega, al⟩, ack, arb⟩
  | completed e after' before' done calm first ack data arb =>
    refine Or.inr ⟨?_, ?_, ⟨?_, ?_⟩, ?_⟩
    · rintro ⟨t, low, high, al⟩
      by_cases inside : w < t ∧ t < u
      · exact nomatch (calm t inside.1 inside.2.le).symm.trans al
      · exact nomatch (outside t low high inside).1.symm.trans al
    · rw [arb, (before w since le_rfl).2]
    · rintro ⟨t, low, high, nack⟩
      simp only [nacked, Bool.and_eq_true] at nack
      obtain ⟨⟨slot, level⟩, wr⟩ := nack
      by_cases inside : w < t ∧ t < u
      · have busy : (r.st t).byte.cState ≠ .idle := fun idle =>
          nomatch (slotOver_of_idle idle).symm.trans slot
        have told : true ∈ ackLevels r w (u - w - 1) :=
          mem_ackLevels.mpr ⟨t, inside.1, by omega, slot, level⟩
        rw [ack, List.mem_singleton] at told
        refine ⟨?_, told.symm⟩
        rw [RTLI2C.write, word t inside.1 inside.2 busy, BitVec.getLsbD_setWidth] at wr
        exact wr
      · exact nomatch (outside t low high inside).2.1.symm.trans slot
    · rintro ⟨wr, nack⟩
      have told : true ∈ ackLevels r w (u - w - 1) := by
        rw [ack, nack]; exact List.mem_singleton_self _
      obtain ⟨t, low, high, slot, level⟩ := mem_ackLevels.mp told
      have busy : (r.st t).byte.cState ≠ .idle := fun idle =>
        nomatch (slotOver_of_idle idle).symm.trans slot
      refine ⟨t, by omega, by omega, ?_⟩
      have wr : (r.st t).write = true := by
        rw [RTLI2C.write, word t low (by omega) busy, BitVec.getLsbD_setWidth]
        exact wr
      show nacked (r.st t) = true
      rw [nacked, slot, level, wr]
      rfl
    · have first : received r a (w + 1 - a) = [] := received_still fun t low high =>
        (outside t low (by omega) (by omega)).2.2
      have last : received r u (b - u) = [] := received_still fun t low high =>
        (outside t (by omega) (by omega) (by omega)).2.2
      have command : received r (w + 1) (u - w - 1) =
          if o.word.getLsbD 5 then dataLevels r w (u - w - 1) else [] :=
        received_command fun t low high shift => by
          have busy : (r.st t).byte.cState ≠ .idle := fun idle => by
            obtain ⟨k, a, line, sound⟩ := d.sound_at run boot hp scl (t := t) (by omega)
            exact nomatch (sound.inStep.settled idle).2.symm.trans shift
          rw [RTLI2C.read, word t low (by omega) busy, BitVec.getLsbD_setWidth]
          rfl
      have whole : dataLevels r w (u - w) = dataLevels r w (u - w - 1) := by
        obtain ⟨n, rfl⟩ : ∃ n, u = w + n + 1 := ⟨u - w - 1, by omega⟩
        rw [show w + n + 1 - w = n + 1 by omega, Nat.add_sub_cancel, dataLevels,
          (outside (w + n + 1) (by omega) ended (by omega)).2.2]
        simp
      rw [received_append (b := w + 1) (by omega) (by omega), first,
        received_append (a := w + 1) (b := u) (by omega) ended.le, last, List.nil_append,
        List.append_nil, show u - (w + 1) = u - w - 1 by omega, command]
      split
      next reads => rw [← whole, data reads]
      next => rfl

/-! ## No call hangs -/

omit run boot hp scl in
/-- A CPU that goes on making accesses makes the next one. -/
theorem next_of_fair (fair : Recurs fun t => d.access t = true) (a : ℕ) :
    ∃ z, a ≤ z ∧ d.cpu (z + 1) = (d.cpu a).next (fun n => (jobs n).translate byteImpl)
      (r.st z) := by
  rcases d.acts a with ⟨z, later, acts, same, -⟩ | never
  · exact ⟨z, later, by rw [d.next_of_access acts, same z later le_rfl]⟩
  · obtain ⟨z, later, acts⟩ := fair a
    exact nomatch (never z later).2.symm.trans acts

omit run boot hp scl in
/-- It gets through `i2c_init`. -/
theorem boots_of_fair (fair : Recurs fun t => d.access t = true) :
    ∃ t, (d.cpu t).booted = true := by
  obtain ⟨w, -, read⟩ := d.next_of_fair fair 0
  obtain ⟨z, -, reset⟩ := d.next_of_fair fair (w + 1)
  obtain ⟨y, -, prescale⟩ := d.next_of_fair fair (z + 1)
  obtain ⟨x, -, control⟩ := d.next_of_fair fair (y + 1)
  refine ⟨x + 1, ?_⟩
  rw [control, prescale, reset, read, d.start]
  rfl

/-- If nobody holds SCL low for ever and the CPU goes on making accesses, it does not hang. -/
theorem not_hangs (early : ∀ t < t₀, (d.cpu t).booted = false)
    (finite : Recurs fun t => hold t = false)
    (fair : Recurs fun t => d.access t = true) {n a : ℕ} (hangs : d.Hangs n a) : False := by
  rcases hangs.why with ⟨m, never⟩ | ⟨w, x, write, never⟩
  · obtain ⟨z, later, acts⟩ := fair m
    exact nomatch (never z later).symm.trans acts
  · have late : t₀ ≤ w := by
      by_contra before
      have booted := d.booted_of_write (Or.inr rfl) write
      rw [early w (by omega)] at booted
      cases booted
    obtain ⟨e, carried⟩ := d.carries_out run boot hp scl finite late write
    have later := carried.later
    obtain ⟨k, a, line, sound⟩ := d.sound_at run boot hp scl (t := e + 1) (by omega)
    have rest := (quiet_step sound.inStep (run.on (e + 1) (by omega)) hp sound.timed carried.back.1
      carried.back.2 (never (e + 1) (by omega)).1).2
    rw [← r.next] at rest
    obtain ⟨z, after, acts⟩ := fair (e + 2)
    obtain ⟨rest', -⟩ := d.rests_until run boot hp scl (by omega) rest after
      fun y low high => (never y (by omega)).1
    exact nomatch rest'.2.2.2.2.symm.trans ((never z (by omega)).2 acts)

/-- Every job returns. -/
theorem returns (early : ∀ t < t₀, (d.cpu t).booted = false)
    (finite : Recurs fun t => hold t = false)
    (fair : Recurs fun t => d.access t = true) {n a : ℕ} (q : Prog ByteIface β)
    (cpu : d.cpu a = .job n (Stage.ready q).prog) : ∃ c x, a ≤ c ∧ d.cpu c = .job n (.ret x) := by
  induction q generalizing a with
  | ret x => exact ⟨a, x, le_rfl, cpu⟩
  | call o k ih =>
    rcases d.answers cpu with ⟨b, w, u, answered, after⟩ | hangs
    · obtain ⟨c, x, later, ended⟩ := ih _ after
      have := answered.since
      have := answered.later
      have := answered.ended
      exact ⟨c, x, by omega, ended⟩
    · exact (d.not_hangs run boot hp scl early finite fair hangs).elim

/-- Every job is begun. -/
theorem begins (early : ∀ t < t₀, (d.cpu t).booted = false)
    (finite : Recurs fun t => hold t = false)
    (fair : Recurs fun t => d.access t = true) (n : ℕ) :
    ∃ a, d.cpu a = .job n (Stage.ready (jobs n)).prog := by
  induction n with
  | zero =>
    obtain ⟨z, -, first⟩ := d.next_of_fair fair t₀
    rw [boot] at first
    exact ⟨z + 1, first⟩
  | succ n ih =>
    obtain ⟨a, cpu⟩ := ih
    obtain ⟨c, x, -, ended⟩ := d.returns run boot hp scl early finite fair _ cpu
    obtain ⟨z, -, next⟩ := d.next_of_fair fair c
    rw [ended] at next
    exact ⟨z + 1, next⟩

end

end DriverRun

end Driver

end Rockling
