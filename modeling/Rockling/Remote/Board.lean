import Rockling.Remote.FailClosed
import Rockling.Remote.Framing
import Rockling.Remote.Packets

/-!
# Remote access is local access

A board is whatever answers reads and takes writes, one access at a time. It can be driven in two
ways: by a program that runs on it, or by the same program on a host, over `eb_write32` and
`eb_read32`, with a peer that handles the requests in order and answers each read with a packet that
ends in the value read. The remote run goes through the same accesses and returns the same result
(`remote_iff_local`), however the connection chunks the answers; in particular it hangs exactly if
the program polls for ever on the board itself.
-/

namespace Rockling

namespace Remote

/-! ## A board and its peer -/

/-- What handles accesses on states `σ`. -/
structure Board (σ : Type) where
  write : BitVec 32 → BitVec 32 → σ → σ
  read : BitVec 32 → σ → BitVec 32 × σ

variable {α σ : Type}

namespace Board

variable (b : Board σ)

/-- One access of a program on the board. A poll reads again as long as the value is busy. -/
def step : Prog BusIface α × σ → Prog BusIface α × σ
  | (.ret a, s) => (.ret a, s)
  | (.call (.write val addr) k, s) => (k (), b.write val addr s)
  | (.call (.read addr) k, s) =>
    (answer (.call (.read addr) k) (b.read addr s).1, (b.read addr s).2)
  | (.call (.readWhile addr busy) k, s) =>
    (answer (.call (.readWhile addr busy) k) (b.read addr s).1, (b.read addr s).2)

/-- An access: the value it reads, if it reads, and the board afterwards. -/
def access : Access → σ → List (BitVec 32) × σ
  | .write val addr, s => ([], b.write val addr s)
  | .read addr, s => ([(b.read addr s).1], (b.read addr s).2)

/-- A request; the peer ignores a packet that it cannot read. -/
def handle (pkt : Packet) (s : σ) : List (BitVec 32) × σ :=
  match decode pkt with
  | some acc => b.access acc s
  | none => ([], s)

/-- Requests in order: the values read, and the board afterwards. -/
def serve : List Packet → σ → List (BitVec 32) × σ
  | [], s => ([], s)
  | pkt :: pkts, s =>
    ((b.handle pkt s).1 ++ (serve pkts (b.handle pkt s).2).1, (serve pkts (b.handle pkt s).2).2)

theorem serve_append (pkts pkts' : List Packet) (s : σ) :
    b.serve (pkts ++ pkts') s = ((b.serve pkts s).1 ++ (b.serve pkts' (b.serve pkts s).2).1,
      (b.serve pkts' (b.serve pkts s).2).2) := by
  induction pkts generalizing s with
  | nil => rfl
  | cons pkt pkts ih => simp only [List.cons_append, serve, ih, List.append_assoc]

end Board

/-- The bytes of the packets that answer the values read. -/
def replies (respond : BitVec 32 → Packet) (vals : List (BitVec 32)) : List Byte :=
  vals.flatMap fun v => List.ofFn (respond v)

/-- The packets that a client sends in a call. -/
def sentIn (conn : Conn) (c : Client α) : List Packet :=
  match Client.next conn c with
  | .call (.send bytes) _ => [bytes]
  | _ => []

/-- The packets that a client has sent in the first `n` calls. -/
def sent {conn : Conn} (r : ClockedRun (client (α := α) conn).step) : ℕ → List Packet
  | 0 => []
  | n + 1 => sent r n ++ sentIn conn (r.st n)

/-- The peer of a client handles what it sends on the board `b`, from state `s` on. It takes every
request whole. Each receive fails with `EINTR` or `EAGAIN`, or brings at least one byte of the
answers to the requests sent so far, from where the last one ended; and the failures do not go on
for ever. -/
structure Serves {conn : Conn} (b : Board σ) (s : σ) (respond : BitVec 32 → Packet)
    (r : ClockedRun (client (α := α) conn).step) : Prop where
  takes : ∀ n bytes, r.inp n (.send bytes) = .ok 20
  ends : ∀ v, (respond v).word 16 = v
  inOrder : ∀ n maxLen k, Client.next conn (r.st n) = .call (.recv maxLen) k →
    (r.inp n (.recv maxLen)).retry = true ∨
      0 < (r.inp n (.recv maxLen)).bytes.length ∧
        received r n ++ (r.inp n (.recv maxLen)).bytes <+:
          replies respond (b.serve (sent r n) s).1
  resumes : Recurs fun n => ¬ Retries r n

/-! ## The stream of answers -/

theorem length_replies (respond : BitVec 32 → Packet) (vals : List (BitVec 32)) :
    (replies respond vals).length = 20 * vals.length := by
  induction vals with
  | nil => rfl
  | cons v vals ih =>
    rw [replies, List.flatMap_cons, ← replies, List.length_append, ih, List.length_ofFn,
      List.length_cons]
    omega

/-- A list that grows at its end has a limit. -/
theorem exists_stream (l : ℕ → List Byte) (grows : ∀ n, l n <+: l (n + 1)) :
    ∃ stream, ∀ n, l n = segment stream 0 (l n).length := by
  have mono : ∀ n m, n ≤ m → l n <+: l m := by
    intro n m le
    induction m, le using Nat.le_induction with
    | base => exact List.prefix_rfl
    | succ m _ ih => exact ih.trans (grows m)
  -- two lists of the chain agree where both are defined
  have agree : ∀ (n m i : ℕ) (b b' : Byte), (l n)[i]? = some b → (l m)[i]? = some b' → b = b' := by
    have half : ∀ (n m i : ℕ) (b b' : Byte), n ≤ m → (l n)[i]? = some b → (l m)[i]? = some b' →
        b = b' := by
      intro n m i b b' le hb hb'
      obtain ⟨new, hnew⟩ := mono n m le
      have inside : i < (l n).length := (List.getElem?_eq_some_iff.mp hb).1
      rw [← hnew, List.getElem?_append_left inside, hb] at hb'
      exact Option.some.inj hb'
    intro n m i b b' hb hb'
    rcases Nat.le_total n m with le | le
    · exact half n m i b b' le hb hb'
    · exact (half m n i b' b le hb' hb).symm
  classical
  refine ⟨fun i => if h : ∃ b n, (l n)[i]? = some b then h.choose else 0, fun n => ?_⟩
  refine List.ext_getElem? fun i => ?_
  rcases Nat.lt_or_ge i (l n).length with inside | outside
  · have here : (l n)[i]? = some (l n)[i] := List.getElem?_eq_getElem inside
    have some' : ∃ b m, (l m)[i]? = some b := ⟨_, n, here⟩
    obtain ⟨m, there⟩ := some'.choose_spec
    rw [segment, List.getElem?_map, List.getElem?_range inside, here, Option.map_some,
      Nat.zero_add, dif_pos some']
    exact congrArg some (agree n m i _ _ here there)
  · rw [List.getElem?_eq_none outside,
      List.getElem?_eq_none (by rw [length_segment]; exact outside)]

/-- A piece of a stream is known by its length. -/
theorem eq_segment_of_append {stream : ℕ → Byte} {l l' : List Byte} {len : ℕ}
    (h : l ++ l' <+: segment stream 0 len) : l = segment stream 0 l.length ∧
      l' = segment stream l.length l'.length := by
  obtain ⟨rest, hrest⟩ := h
  have hlen := congrArg List.length hrest
  rw [List.length_append, List.length_append, length_segment] at hlen
  have pieces : segment stream 0 len = segment stream 0 l.length ++
      (segment stream l.length l'.length ++
        segment stream (l.length + l'.length) rest.length) := by
    have whole := segment_append stream 0 l.length (l'.length + rest.length)
    rw [Nat.zero_add, ← segment_append, ← Nat.add_assoc, hlen] at whole
    exact whole.symm
  rw [pieces, List.append_assoc] at hrest
  obtain ⟨first, others⟩ := List.append_inj hrest (length_segment _ _ _).symm
  obtain ⟨second, -⟩ := List.append_inj others (length_segment _ _ _).symm
  exact ⟨first, second⟩

section Serve

variable {host : Endian} {b : Board σ} {s : σ} {respond : BitVec 32 → Packet}
  {r : ClockedRun (client (α := α) (tcp host)).step} {prog : Prog BusIface α}
  {stream : ℕ → Byte} {addr : BitVec 32} {n : ℕ}

/-- The bytes of the answers to the requests sent in the first `n` calls. -/
def answered (b : Board σ) (s : σ) (respond : BitVec 32 → Packet)
    (r : ClockedRun (client (α := α) (tcp host)).step) (n : ℕ) : List Byte :=
  replies respond (b.serve (sent r n) s).1

theorem answered_grows (n : ℕ) : answered b s respond r n <+: answered b s respond r (n + 1) := by
  rw [answered, answered, sent, Board.serve_append, replies, replies, List.flatMap_append]
  exact List.prefix_append _ _

/-- What a peer sends is a stream, and it delivers it. -/
theorem Serves.delivers (serves : Serves b s respond r)
    (hstream : ∀ n, answered b s respond r n =
      segment stream 0 (answered b s respond r n).length) : Delivers stream r where
  inOrder := by
    intro n maxLen k hnext
    refine (serves.inOrder n maxLen k hnext).imp_right fun ⟨hpos, hpre⟩ => ⟨hpos, ?_⟩
    change _ <+: answered b s respond r n at hpre
    rw [hstream] at hpre
    exact (eq_segment_of_append hpre).2
  resumes := serves.resumes

/-- Where the remote run stands between two accesses: at the program `c.1`, with the board in state
`c.2` and every answer received. -/
structure At (b : Board σ) (s : σ) (r : ClockedRun (client (α := α) (tcp host)).step)
    (c : Prog BusIface α × σ) (n : ℕ) : Prop where
  prog : r.st n = ⟨c.1, none⟩
  board : (b.serve (sent r n) s).2 = c.2
  received : (received r n).length = 20 * (b.serve (sent r n) s).1.length

/-- The board after one more request. -/
theorem serve_request (pkts : List Packet) (acc : Access) :
    b.serve (pkts ++ [acc.request host]) s = ((b.serve pkts s).1 ++
      (b.access acc (b.serve pkts s).2).1, (b.access acc (b.serve pkts s).2).2) := by
  have hhandle : b.handle (acc.request host) (b.serve pkts s).2 =
      b.access acc (b.serve pkts s).2 := by
    unfold Board.handle
    rw [decode_request]
  rw [Board.serve_append, Board.serve, hhandle, Board.serve, List.append_nil]

/-- A write takes one call. -/
theorem At.write {val : BitVec 32} {k : Unit → Prog BusIface α} {s' : σ}
    (h : At b s r (.call (S := BusIface) (.write val addr) k, s') n) :
    At b s r (k (), b.write val addr s') (n + 1) := by
  have hst : (r.st n).prog = .call (S := BusIface) (.write val addr) k := by rw [h.prog]
  have hnext : Client.next (tcp host) (r.st n) =
      .call (.send (ebFillWrite32 host val addr)) fun _ => ⟨k (), none⟩ := by
    rw [Client.next, hst]
    rfl
  have hsent : sent r (n + 1) = sent r n ++ [(Access.write val addr).request host] := by
    rw [sent, sentIn, hnext]
    rfl
  have hrec : Remote.received r (n + 1) = Remote.received r n := by
    rw [Remote.received, receivedIn, hnext, List.append_nil]
  refine ⟨write_step hst, ?_, ?_⟩
  · rw [hsent, serve_request, h.board]
    rfl
  · rw [hrec, hsent, serve_request, h.received, Board.access, List.append_nil]

/-- While it receives, a client sends nothing. -/
theorem Filling.sent_eq {base : ℕ} (reading : Reading prog addr) {t : ℕ}
    (filling : ∀ m, n ≤ m → m < t → Filling stream r prog base m) (le : n ≤ t) :
    sent r t = sent r n := by
  induction t, le using Nat.le_induction with
  | base => rfl
  | succ t le ih =>
    obtain ⟨rawPkt, p, hst, -, -⟩ := filling t le (Nat.lt_succ_self t)
    rw [sent, ih fun m low high => filling m low (Nat.lt_succ_of_lt high), sentIn, hst,
      reading.next_recv, List.append_nil]

/-- The last answer of a list is in the last 20 bytes. -/
theorem answer_of_stream {vals : List (BitVec 32)} {v : BitVec 32}
    (h : replies respond (vals ++ [v]) = segment stream 0 (replies respond (vals ++ [v])).length)
    (ends : ∀ v, (respond v).word 16 = v) : wordAt stream (20 * vals.length + 16) = v := by
  have hsplit : replies respond (vals ++ [v]) =
      replies respond vals ++ List.ofFn (respond v) := by
    simp only [replies, List.flatMap_append, List.flatMap_singleton]
  rw [hsplit] at h
  have hlast := (eq_segment_of_append ⟨[], (List.append_nil _).trans h⟩).2
  rw [length_replies, List.length_ofFn] at hlast
  have byte (i : Fin 20) : stream (20 * vals.length + i) = respond v i := by
    have hi := congrArg (fun l : List Byte => l[(i : ℕ)]?) hlast
    simp only [segment, List.getElem?_map, List.getElem?_range i.isLt, Option.map_some,
      List.getElem?_ofFn, dif_pos i.isLt, Option.some.injEq] at hi
    exact hi.symm
  rw [wordAt]
  have first := byte 16
  have second := byte 17
  have third := byte 18
  have fourth := byte 19
  rw [← ends v, Packet.word]
  exact congr (congr (congr (congrArg bigEndian first) second) third) fourth

/-- A read takes its request and the receives of its answer. -/
theorem At.read (serves : Serves b s respond r) (reading : Reading prog addr) {s' : σ}
    (h : At b s r (prog, s') n) :
    ∃ m, n < m ∧ At b s r (answer prog (b.read addr s').1, (b.read addr s').2) m := by
  obtain ⟨stream, hstream⟩ := exists_stream (answered b s respond r) answered_grows
  have delivers := serves.delivers hstream
  have hnext : Client.next (tcp host) (r.st n) = .call (.send (ebFillRead32 host addr)) fun _ =>
      ⟨prog, some (ebFillRead32 host addr, 0)⟩ := h.prog ▸ reading.next_send
  have hsent : sent r (n + 1) = sent r n ++ [(Access.read addr).request host] := by
    rw [sent, sentIn, hnext]
    rfl
  have hrec : Remote.received r (n + 1) = Remote.received r n := by
    rw [Remote.received, receivedIn, hnext, List.append_nil]
  have hserve : b.serve (sent r (n + 1)) s =
      ((b.serve (sent r n) s).1 ++ [(b.read addr s').1], (b.read addr s').2) := by
    rw [hsent, serve_request, h.board]
    rfl
  -- the answer is filled in from the first byte that has not been received
  have hfilling : Filling stream r prog (Remote.received r n).length (n + 1) :=
    ⟨_, _, reading.send_step h.prog, by rw [hrec]; rfl, fun i hi => absurd hi (Nat.not_lt_zero i)⟩
  obtain ⟨m, hm, ⟨hst, hlen⟩, hphase⟩ :=
    delivers.resumes.leads_to (Filling.nears delivers reading) hfilling
  have hsent' : sent r m = sent r (n + 1) := Filling.sent_eq reading hphase hm.le
  have hword : wordAt stream ((Remote.received r n).length + 16) = (b.read addr s').1 := by
    rw [h.received]
    refine answer_of_stream ?_ serves.ends
    have hanswered := hstream (n + 1)
    rwa [answered, hserve] at hanswered
  refine ⟨m, by omega, ?_, ?_, ?_⟩
  · rw [hst, hword]
  · rw [hsent', hserve]
  · rw [hlen, hsent', hserve, h.received, List.length_append, List.length_singleton]
    omega

/-- A program that has returned makes no more calls. -/
theorem At.ret {a : α} {s' : σ} (h : At b s r (.ret a, s') n) : At b s r (.ret a, s') (n + 1) := by
  have hnext : (client (tcp host)).next (r.st n) = .returned a := by
    rw [h.prog]
    rfl
  have hnext' : Client.next (tcp host) (r.st n) = .returned a := hnext
  have hsent : sent r (n + 1) = sent r n := by rw [sent, sentIn, hnext', List.append_nil]
  have hrec : Remote.received r (n + 1) = Remote.received r n := by
    rw [Remote.received, receivedIn, hnext', List.append_nil]
  refine ⟨?_, hsent ▸ h.board, by rw [hrec, hsent, h.received]⟩
  rw [r.next, Process.step_returned hnext, h.prog]

/-- A client that has returned is at the end of its program. -/
theorem prog_of_returned {conn : Conn} {c : Client α} {a : α}
    (h : Client.next conn c = .returned a) : c.prog = .ret a := by
  obtain ⟨prog, rx⟩ := c
  cases prog with
  | ret a' =>
    cases h
    rfl
  | call o k =>
    cases o with
    | write val addr => cases h
    | read addr => exact absurd h ((reading_read k).not_returned rx a)
    | readWhile addr busy => exact absurd h ((reading_readWhile busy k).not_returned rx a)

/-- **One access** on the board is some calls of the remote run. -/
theorem At.step (serves : Serves b s respond r) {c : Prog BusIface α × σ} (h : At b s r c n) :
    ∃ m, n < m ∧ At b s r (b.step c) m := by
  obtain ⟨prog, s'⟩ := c
  cases prog with
  | ret a => exact ⟨n + 1, Nat.lt_succ_self n, h.ret⟩
  | call o k =>
    cases o with
    | write val addr => exact ⟨n + 1, Nat.lt_succ_self n, h.write⟩
    | read addr => exact h.read serves (reading_read k)
    | readWhile addr busy => exact h.read serves (reading_readWhile busy k)

end Serve

/-- A result of the remote run, with the state of the board, is one of the local run. -/
theorem Serves.ends_iff {host : Endian} {prog : Prog BusIface α} {env : ℕ → Replies SockIface}
    {b : Board σ} {s : σ} {respond : BitVec 32 → Packet}
    (serves : Serves b s respond ((client (tcp host)).exec (.start prog) env)) (a : α) (s' : σ) :
    (∃ n, Client.next (tcp host) (((client (tcp host)).exec (.start prog) env).st n) =
        .returned a ∧
      (b.serve (sent ((client (tcp host)).exec (.start prog) env) n) s).2 = s') ↔
    ∃ i, b.step^[i] (prog, s) = (.ret a, s') := by
  generalize hr : (client (tcp host)).exec (.start prog) env = r at serves ⊢
  have start : At b s r (b.step^[0] (prog, s)) 0 := by
    subst hr
    exact ⟨rfl, rfl, rfl⟩
  have stages : ∀ i, ∃ n, i ≤ n ∧ At b s r (b.step^[i] (prog, s)) n := by
    refine visits start fun n i here => ?_
    rw [Function.iterate_succ_apply']
    exact here.step serves
  constructor
  · rintro ⟨n, hreturned, hboard⟩
    -- by call `n` of the remote run the local one has returned, too
    obtain ⟨m, hm, hprog, hboard', -⟩ := stages n
    have hsame : r.st m = r.st n := Process.stays_returned r hreturned m hm
    have hsent : sent r m = sent r n := by
      clear hprog hboard' hsame
      induction m, hm using Nat.le_induction with
      | base => rfl
      | succ m hm ih =>
        have hstay : r.st m = r.st n := Process.stays_returned r hreturned m hm
        rw [sent, ih, sentIn, hstay, hreturned, List.append_nil]
    refine ⟨n, Prod.ext ?_ ?_⟩
    · rw [← prog_of_returned hreturned, ← hsame, hprog]
    · rw [← hboard', hsent, hboard]
  · rintro ⟨i, hret⟩
    obtain ⟨n, -, here⟩ := stages i
    rw [hret] at here
    refine ⟨n, ?_, here.board⟩
    rw [here.prog]
    rfl

/-- **Remote access is local access.** Over any connection whose peer handles the requests on a
board, a program returns a result and leaves the board in a state exactly if it does so when it runs
on the board, and it polls for ever exactly if it does there. -/
theorem remote_iff_local (host : Endian) (prog : Prog BusIface α) (env : ℕ → Replies SockIface)
    (b : Board σ) (s : σ) (respond : BitVec 32 → Packet)
    (serves : Serves b s respond ((client (tcp host)).exec (.start prog) env)) :
    (∀ a s', (∃ n, Client.next (tcp host) (((client (tcp host)).exec (.start prog) env).st n) =
          .returned a ∧
        (b.serve (sent ((client (tcp host)).exec (.start prog) env) n) s).2 = s') ↔
      ∃ i, b.step^[i] (prog, s) = (.ret a, s')) ∧
    ((∀ a, ¬ Process.Returns ((client (tcp host)).exec (.start prog) env) a) ↔
      ∀ i a, (b.step^[i] (prog, s)).1 ≠ .ret a) := by
  refine ⟨serves.ends_iff, fun hangs i a ret => ?_, fun polls a => ?_⟩
  · obtain ⟨n, returned, -⟩ := (serves.ends_iff a _).mpr ⟨i, Prod.ext ret rfl⟩
    exact hangs a ⟨n, returned⟩
  · rintro ⟨n, returned⟩
    obtain ⟨i, ended⟩ := (serves.ends_iff a _).mp ⟨n, returned, rfl⟩
    exact polls i a (congrArg Prod.fst ended)

/-- A board with one register that counts down when it is read. -/
def countdown : Board (BitVec 32) := ⟨fun val _ _ => val, fun _ s => (s, s - 1)⟩

/-- A program that starts the count and polls until it is over. -/
def countProg : Prog BusIface (BitVec 32) :=
  .call (S := BusIface) (.write 2 0x1000) fun _ =>
    .call (S := BusIface) (.readWhile 0x1000 fun v => v != 0) fun v : BitVec 32 => .ret v

/-- A packet that ends in a value. -/
def response (v : BitVec 32) : Packet :=
  memcpy header 16 (Endian.big.store (Endian.big.htobe32 v))

theorem response_ends (v : BitVec 32) : (response v).word 16 = v :=
  word_memcpy .big v (by decide)

/-- As many of the `len` bytes from `a` on of a response as are asked for. -/
def piece (maxLen : ℕ) (v : BitVec 32) (a len : ℕ) : Received maxLen :=
  .got ((((List.ofFn (response v)).drop a).take len).take maxLen) (List.length_take_le _ _)

/-- The three answers, the second after a failure and in two pieces. -/
def countEnv (n : ℕ) : Replies SockIface
  | .send _ => .ok 20
  | .recv maxLen =>
    match n with
    | 2 => piece maxLen 2 0 20
    | 5 => piece maxLen 1 0 3
    | 6 => piece maxLen 1 3 17
    | 8 => piece maxLen 0 0 20
    | _ => .failed .EAGAIN

/-- The remote run of the count. -/
def countRun : ClockedRun (client (α := BitVec 32) (tcp .little)).step :=
  (client (tcp .little)).exec (.start countProg) countEnv

theorem countRun_done : (client (tcp .little)).next (countRun.st 9) = .returned 0 := by
  rfl

/-- The peer takes the requests whole. -/
theorem countRun_takes (n : ℕ) (bytes : Packet) : countRun.inp n (.send bytes) = .ok 20 := by
  unfold countRun Process.exec
  rfl

/-- What has been received is always a beginning of the answers. -/
theorem countRun_inOrder {n maxLen : ℕ}
    {k : Received maxLen → Client (BitVec 32)} (hn : n < 9)
    (h : Client.next (tcp .little) (countRun.st n) = .call (.recv maxLen) k) :
    (countRun.inp n (.recv maxLen)).retry = true ∨
      0 < (countRun.inp n (.recv maxLen)).bytes.length ∧
        received countRun n ++ (countRun.inp n (.recv maxLen)).bytes <+:
          replies response (countdown.serve (sent countRun n) 0).1 := by
  interval_cases n
  · cases h
  · cases h
  · cases h
    exact .inr (by decide +kernel)
  · cases h
  · cases h
    exact .inl (by decide +kernel)
  · cases h
    exact .inr (by decide +kernel)
  · cases h
    exact .inr (by decide +kernel)
  · cases h
  · cases h
    exact .inr (by decide +kernel)

theorem countRun_serves : Serves countdown 0 response countRun where
  takes := countRun_takes
  ends := response_ends
  inOrder := by
    intro n maxLen k h
    rcases Nat.lt_or_ge n 9 with hn | hn
    · exact countRun_inOrder hn h
    · rw [Process.stays_returned countRun countRun_done n hn] at h
      cases h
  resumes := by
    intro n
    refine ⟨n + 9, Nat.le_add_right n 9, ?_⟩
    rintro ⟨maxLen, k, h, -⟩
    rw [Process.stays_returned countRun countRun_done _ (Nat.le_add_left 9 n)] at h
    cases h

/-- The count is over on the host when it is on the board. -/
theorem remote_iff_local_count : ∃ n, Client.next (tcp .little) (countRun.st n) = .returned 0 ∧
    (countdown.serve (sent countRun n) 0).2 = -1 :=
  ((remote_iff_local .little countProg countEnv countdown 0 response countRun_serves).1 0 (-1)).mpr
    ⟨4, by rfl⟩

end Remote

end Rockling
