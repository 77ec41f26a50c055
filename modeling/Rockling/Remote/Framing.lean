import Rockling.Lib.Eventually
import Rockling.Remote.Etherbone
import Mathlib.Tactic.IntervalCases

/-!
# Framing of reads over TCP

A TCP connection delivers the responses as one stream of bytes, cut into receives wherever it likes.
`eb_read32` asks for no more bytes than its response still lacks, so a read ends exactly at the end
of its 20 bytes, and the next one starts with the byte after. The loop invariant is `Filling`: the
buffer holds the stream from the start of the response up to the cursor.
-/

namespace Rockling

namespace Remote

/-! ## A stream and its delivery -/

/-- The `len` bytes of the stream from offset `a` on. -/
def segment (stream : ℕ → Byte) (a len : ℕ) : List Byte :=
  (List.range len).map fun i => stream (a + i)

/-- The big-endian word at an offset of the stream. -/
def wordAt (stream : ℕ → Byte) (a : ℕ) : BitVec 32 :=
  bigEndian (stream a) (stream (a + 1)) (stream (a + 2)) (stream (a + 3))

variable {α : Type} {conn : Conn}

/-- The bytes that a client receives in a call. -/
def receivedIn (conn : Conn) (c : Client α) (replies : Replies SockIface) : List Byte :=
  match Client.next conn c with
  | .call (.recv maxLen) _ => (replies (.recv maxLen)).bytes
  | _ => []

/-- The bytes that a client has received in the first `n` calls. -/
def received (r : ClockedRun (client (α := α) conn).step) : ℕ → List Byte
  | 0 => []
  | n + 1 => received r n ++ receivedIn conn (r.st n) (r.inp n)

/-- Call `n` is a receive that fails with `EINTR` or `EAGAIN`. -/
def Retries (r : ClockedRun (client (α := α) conn).step) (n : ℕ) : Prop :=
  ∃ maxLen k, Client.next conn (r.st n) = .call (.recv maxLen) k ∧
    (r.inp n (.recv maxLen)).retry = true

/-- The socket delivers the stream: each receive fails with `EINTR` or `EAGAIN`, or returns at least
one byte (and at most as many as asked for) from where the last one ended; and the failures do not
go on for ever. -/
structure Delivers (stream : ℕ → Byte) (r : ClockedRun (client (α := α) conn).step) : Prop where
  inOrder : ∀ n maxLen k, Client.next conn (r.st n) = .call (.recv maxLen) k →
    (r.inp n (.recv maxLen)).retry = true ∨
      0 < (r.inp n (.recv maxLen)).bytes.length ∧ (r.inp n (.recv maxLen)).bytes =
        segment stream (received r n).length (r.inp n (.recv maxLen)).bytes.length
  resumes : Recurs fun n => ¬ Retries r n

theorem length_segment (stream : ℕ → Byte) (a len : ℕ) : (segment stream a len).length = len := by
  rw [segment, List.length_map, List.length_range]

theorem segment_append (stream : ℕ → Byte) (a len len' : ℕ) :
    segment stream a len ++ segment stream (a + len) len' = segment stream a (len + len') := by
  simp only [segment, List.range_add, List.map_append, List.map_map, Function.comp_def,
    Nat.add_assoc]

/-- What has been received is the stream up to there. -/
theorem received_eq {stream : ℕ → Byte} {r : ClockedRun (client (α := α) conn).step}
    (delivers : Delivers stream r) (n : ℕ) :
    received r n = segment stream 0 (received r n).length := by
  induction n with
  | zero => rfl
  | succ n ih =>
    have hnew : receivedIn conn (r.st n) (r.inp n) =
        segment stream (received r n).length (receivedIn conn (r.st n) (r.inp n)).length := by
      unfold receivedIn
      split
      next maxLen k h =>
        rcases delivers.inOrder n maxLen k h with hretry | ⟨-, hbytes⟩
        · cases hreply : r.inp n (.recv maxLen) with
          | got bytes fits =>
            rw [hreply] at hretry
            cases hretry
          | failed errno => rfl
        · exact hbytes
      next => rfl
    rw [received, List.length_append, ← segment_append, Nat.zero_add, ← hnew, ← ih]

/-! ## One read -/

section Read

variable {host : Endian} {stream : ℕ → Byte} {r : ClockedRun (client (α := α) (tcp host)).step}
  {prog : Prog BusIface α} {addr : BitVec 32} {base : ℕ}

/-- The loop invariant of `eb_read32` for the response that starts at `base`: the bytes received
since then are those before the cursor, and they are in the buffer. -/
def Filling (stream : ℕ → Byte) (r : ClockedRun (client (α := α) (tcp host)).step)
    (prog : Prog BusIface α) (base n : ℕ) : Prop :=
  ∃ rawPkt p, r.st n = ⟨prog, some (rawPkt, p)⟩ ∧ (received r n).length = base + p ∧
    ∀ i : Fin 20, i < p → rawPkt i = stream (base + i)

/-- The read has returned its word, at the end of its response. -/
def Framed (stream : ℕ → Byte) (r : ClockedRun (client (α := α) (tcp host)).step)
    (prog : Prog BusIface α) (base n : ℕ) : Prop :=
  r.st n = ⟨answer prog (wordAt stream (base + 16)), none⟩ ∧ (received r n).length = base + 20

/-- The bytes that the response still lacks. -/
def lacks (c : Client α) : ℕ :=
  match c.rx with
  | some (_, p) => 20 - p
  | none => 0

/-- The buffer after a receive at the cursor holds the stream up to the new cursor. -/
theorem memcpy_segment {rawPkt : Packet} {p : Fin 20} {len : ℕ}
    (hbuf : ∀ i : Fin 20, i < p → rawPkt i = stream (base + i)) (i : Fin 20) (hi : i < p + len) :
    memcpy rawPkt p (segment stream (base + p) len) i = stream (base + i) := by
  rcases Nat.lt_or_ge i p with hlt | hge
  · rw [memcpy_before hlt]
    exact hbuf i hlt
  · have hk : i - p < (segment stream (base + p) len).length := by
      rw [length_segment]
      omega
    rw [memcpy_inside hk (by omega)]
    simp only [segment, List.getElem_map, List.getElem_range]
    congr 1
    omega

/-- A full buffer is unpacked to the word in its last four bytes, on every host. -/
theorem ebUnfillRead32_full {rawPkt : Packet} (h : ∀ i : Fin 20, rawPkt i = stream (base + i)) :
    ebUnfillRead32 host rawPkt = wordAt stream (base + 16) := by
  rw [ebUnfillRead32, be32toh_load, h 16, h 17, h 18, h 19]
  rfl

/-- What a receive of a read brings is received. -/
theorem received_recv (reading : Reading prog addr) {n : ℕ} {rawPkt : Packet} {p : Fin 20}
    (hst : r.st n = ⟨prog, some (rawPkt, p)⟩) :
    received r (n + 1) = received r n ++ (r.inp n (.recv (20 - p))).bytes := by
  rw [received, receivedIn, hst, reading.next_recv]

/-- A failed receive brings no bytes. -/
theorem Received.bytes_retry {maxLen : ℕ} {ret : Received maxLen} (h : ret.retry = true) :
    ret.bytes = [] := by
  cases ret with
  | got bytes fits => cases h
  | failed errno => rfl

/-- Bytes that come complete the response or fill the buffer further. -/
theorem fill_step {n : ℕ} {rawPkt : Packet} {p : Fin 20} {bytes : List Byte}
    {fits : bytes.length ≤ 20 - p} (hst : r.st n = ⟨prog, some (rawPkt, p)⟩)
    (hlen : (received r n).length = base + p)
    (hbuf : ∀ i : Fin 20, i < p → rawPkt i = stream (base + i)) (hpos : 0 < bytes.length)
    (hbytes : bytes = segment stream (base + p) bytes.length)
    (hstep : r.st (n + 1) = .resume prog (recvStream host rawPkt p (.got bytes fits)))
    (hrec : received r (n + 1) = received r n ++ bytes) :
    Framed stream r prog base (n + 1) ∨
      Filling stream r prog base (n + 1) ∧ lacks (r.st (n + 1)) < lacks (r.st n) := by
  have hbuf' : ∀ i : Fin 20, i < p + bytes.length →
      memcpy rawPkt p bytes i = stream (base + i) := by
    rw [hbytes]
    simpa only [length_segment] using memcpy_segment hbuf
  have hlen' : (received r (n + 1)).length = base + (p + bytes.length) := by
    rw [hrec, List.length_append, hlen, Nat.add_assoc]
  by_cases more : p + bytes.length < 20
  · have hgoes : r.st (n + 1) =
        ⟨prog, some (memcpy rawPkt p bytes, ⟨p + bytes.length, more⟩)⟩ := by
      rw [hstep, recvStream, dif_pos more]
      rfl
    refine .inr ⟨⟨_, _, hgoes, hlen', hbuf'⟩, ?_⟩
    rw [hgoes, hst]
    simp only [lacks]
    omega
  · have hfull : p + bytes.length = 20 := by
      have hp := p.isLt
      omega
    refine .inl ⟨?_, by rw [hlen', hfull]⟩
    rw [hstep, recvStream, dif_neg more, ebUnfillRead32_full fun i => hbuf' i (by omega)]
    rfl

/-- One receive of a read either completes it or keeps the invariant; only `EINTR` and `EAGAIN`
leave as many bytes lacking as before. -/
theorem Filling.nears (delivers : Delivers stream r) (reading : Reading prog addr) :
    Nears (Filling stream r prog base) (Framed stream r prog base)
      (fun n => ¬ Retries r n) (fun n => lacks (r.st n)) := by
  rintro n ⟨rawPkt, p, hst, hlen, hbuf⟩
  have hnext : Client.next (tcp host) (r.st n) = _ := hst ▸ reading.next_recv
  have hstep := reading.recv_step hst
  have hrec := received_recv reading hst
  rcases delivers.inOrder n _ _ hnext with hretry | ⟨hpos, hbytes⟩
  · -- the loop goes round without a byte
    rw [recvStream_retry hretry] at hstep
    rw [Received.bytes_retry hretry, List.append_nil] at hrec
    have hsame : lacks (r.st (n + 1)) = lacks (r.st n) := by
      rw [hstep, hst]
      rfl
    exact .inr ⟨⟨rawPkt, p, hstep, hrec ▸ hlen, hbuf⟩, hsame.le,
      fun htick => absurd ⟨_, _, hnext, hretry⟩ htick⟩
  · cases hreply : r.inp n (.recv (20 - p)) with
    | failed errno =>
      rw [hreply] at hpos
      exact absurd hpos (lt_irrefl 0)
    | got bytes fits =>
      rw [hreply] at hstep hrec hpos hbytes
      rw [hlen] at hbytes
      rcases fill_step hst hlen hbuf hpos hbytes hstep hrec with hdone | ⟨hfilling, hless⟩
      · exact .inl hdone
      · exact .inr ⟨hfilling, hless.le, fun _ => hless⟩

/-- A read returns its word after finitely many calls, and takes exactly its response. -/
theorem read_framed (delivers : Delivers stream r) (reading : Reading prog addr) {n : ℕ}
    (hst : r.st n = ⟨prog, none⟩) (hlen : (received r n).length = base) :
    ∃ m, n < m ∧ Framed stream r prog base m := by
  have hrec : (received r (n + 1)).length = base + (0 : Fin 20) := by
    rw [received, receivedIn, hst, reading.next_send]
    simpa using hlen
  have hfilling : Filling stream r prog base (n + 1) :=
    ⟨_, _, reading.send_step hst, hrec, fun i hi => absurd hi (Nat.not_lt_zero i)⟩
  obtain ⟨m, hm, hframed, -⟩ := delivers.resumes.leads_to (Filling.nears delivers reading) hfilling
  exact ⟨m, by omega, hframed⟩

end Read

/-! ## A sequence of reads -/

/-- Calls of `eb_read32` at a list of addresses, with the words they return. -/
def ebReads : List (BitVec 32) → Prog BusIface (List (BitVec 32))
  | [] => .ret []
  | addr :: addrs => do
    let v ← csrReadSimple addr
    let vs ← ebReads addrs
    return v :: vs

/-- A sequence of reads starts with its first. -/
theorem ebReads_cons_bind (addr : BitVec 32) (addrs : List (BitVec 32))
    (f : List (BitVec 32) → Prog BusIface α) : (ebReads (addr :: addrs) >>= f) =
      .call (S := BusIface) (.read addr) fun v : BitVec 32 =>
        ebReads addrs >>= fun vs => f (v :: vs) := by
  rw [ebReads, csrReadSimple, Prog.op_bind, Prog.call_bind]
  refine congrArg (Prog.call (S := BusIface) (.read addr)) (funext fun v : BitVec 32 => ?_)
  exact Prog.bind_assoc _ _ _

/-- The words of `n` consecutive responses that start at `base`. -/
def words (stream : ℕ → Byte) (base n : ℕ) : List (BitVec 32) :=
  (List.range n).map fun i => wordAt stream (base + 20 * i + 16)

theorem words_succ (stream : ℕ → Byte) (base n : ℕ) :
    words stream base (n + 1) = wordAt stream (base + 16) :: words stream (base + 20) n := by
  simp only [words, List.range_succ_eq_map, List.map_cons, List.map_map, Function.comp_def]
  congr 1
  refine List.map_congr_left fun i _ => ?_
  congr 1
  omega

section Reads

variable {host : Endian} {stream : ℕ → Byte}

/-- Reads in front of any program take one response each. -/
theorem ebReads_framed {r : ClockedRun (client (α := α) (tcp host)).step}
    (delivers : Delivers stream r) (addrs : List (BitVec 32))
    (f : List (BitVec 32) → Prog BusIface α) {n base : ℕ}
    (hst : r.st n = ⟨ebReads addrs >>= f, none⟩) (hlen : (received r n).length = base) :
    ∃ m, r.st m = ⟨f (words stream base addrs.length), none⟩ ∧
      (received r m).length = base + 20 * addrs.length := by
  induction addrs generalizing n base f with
  | nil => exact ⟨n, hst, hlen⟩
  | cons addr addrs ih =>
    rw [ebReads_cons_bind] at hst
    obtain ⟨m, -, hword, hlen'⟩ := read_framed delivers (reading_read _) hst hlen
    -- the program goes on with the remaining reads
    obtain ⟨m', hst', hlen''⟩ := ih (fun vs => f (wordAt stream (base + 16) :: vs)) hword hlen'
    refine ⟨m', ?_, ?_⟩
    · rw [hst', List.length_cons, words_succ]
    · rw [hlen'', List.length_cons]
      omega

/-- Framing does not depend on chunking. On any host, however a connection over TCP cuts the stream
of responses into receives and however often they fail with `EINTR` or `EAGAIN` in between, calls of
`eb_read32` at `n` addresses return after finitely many socket calls, the `i`-th with the big-endian
word at offset `20 * i + 16` of the stream, and have then received its first `20 * n` bytes. -/
theorem reads_framed (host : Endian) (addrs : List (BitVec 32)) (stream : ℕ → Byte)
    (env : ℕ → Replies SockIface)
    (delivers : Delivers stream ((client (tcp host)).exec (.start (ebReads addrs)) env)) :
    ∃ n, Client.next (tcp host) (((client (tcp host)).exec (.start (ebReads addrs)) env).st n) =
        .returned ((List.range addrs.length).map fun i => wordAt stream (20 * i + 16)) ∧
      received ((client (tcp host)).exec (.start (ebReads addrs)) env) n =
        segment stream 0 (20 * addrs.length) := by
  have hstart : ((client (tcp host)).exec (.start (ebReads addrs)) env).st 0 =
      ⟨ebReads addrs >>= .ret, none⟩ := by
    rw [Prog.bind_ret]
    rfl
  have hnone : (received ((client (tcp host)).exec (.start (ebReads addrs)) env) 0).length = 0 :=
      rfl
  obtain ⟨n, hst, hlen⟩ := ebReads_framed delivers addrs .ret hstart hnone
  refine ⟨n, ?_, ?_⟩
  · rw [hst]
    simp only [words, Nat.zero_add]
    rfl
  · rw [received_eq delivers, hlen, Nat.zero_add]

/-- A stream whose bytes count up. -/
def countUp (i : ℕ) : Byte := BitVec.ofNat 8 i

/-- Two responses in four receives, of 7, 13, 1 and 19 bytes, the second and the last after a
failure. -/
def chunks : ℕ → Replies SockIface
  | _, .send _ => .ok 20
  | n, .recv _ =>
    match n with
    | 1 => reply 0 7
    | 3 => reply 7 13
    | 5 => reply 20 1
    | 7 => reply 21 19
    | _ => .failed .EINTR
where
  /-- As many of the `len` bytes at offset `a` as are asked for. -/
  reply {m : ℕ} (a len : ℕ) : Received m :=
    .got ((segment countUp a len).take m) (List.length_take_le _ _)

/-- Two reads over `chunks`. -/
def chunkedRun : ClockedRun (client (α := List (BitVec 32)) (tcp .little)).step :=
  (client (tcp .little)).exec (.start (ebReads [0x1000, 0x1004])) chunks

theorem chunkedRun_done : (client (tcp .little)).next (chunkedRun.st 8) =
    .returned [wordAt countUp 16, wordAt countUp 36] := by
  rfl

theorem delivers_chunks : Delivers countUp chunkedRun where
  inOrder := by
    intro n maxLen k h
    rcases Nat.lt_or_ge n 8 with hn | hn
    · interval_cases n
      · cases h
      · cases h
        exact .inr (by decide)
      · cases h
        exact .inl rfl
      · cases h
        exact .inr (by decide)
      · cases h
      · cases h
        exact .inr (by decide)
      · cases h
        exact .inl rfl
      · cases h
        exact .inr (by decide)
    · rw [Process.stays_returned chunkedRun chunkedRun_done n hn] at h
      cases h
  resumes := by
    intro n
    refine ⟨n + 8, Nat.le_add_right n 8, ?_⟩
    rintro ⟨maxLen, k, h, -⟩
    rw [Process.stays_returned chunkedRun chunkedRun_done _ (Nat.le_add_left 8 n)] at h
    cases h

theorem reads_framed_chunks :
    ∃ n, Client.next (tcp .little) (chunkedRun.st n) =
      .returned [wordAt countUp 16, wordAt countUp 36] := by
  obtain ⟨n, h, -⟩ := reads_framed .little [0x1000, 0x1004] countUp chunks delivers_chunks
  exact ⟨n, h⟩

end Reads

end Remote

end Rockling
