import Rockling.Lib.Memory
import Rockling.Lib.Process
import Rockling.Driver.I2c

/-!
# Register accesses over Etherbone

`remote-bus/etherbone.c` under `remote-bus/main.c`: the driver of `custom-bios/i2c.c` linked against
accessors that send each register access to the board. A read sends a request and then fills a
buffer of 20 bytes, over TCP with as many receives as it takes.

The driver above is a program over bus accesses; `Client` runs it call by call over a socket. Its
state is the access the program is at, and the buffer and cursor of `eb_read32` if it is receiving.
-/

namespace Rockling

namespace Remote

/-! ## Packets -/

/-- `raw_pkt`, a request or a response. -/
abbrev Packet := Buffer 20

/-- The bytes that every request starts with. -/
def header : Packet := fun i => ([0x4e, 0x6f, 0x10, 0x44, 0, 0, 0, 0, 0, 0x0f] : List Byte).getD i 0

/-- `eb_fill_readwrite32`. -/
def ebFillReadwrite32 (host : Endian) (data address : BitVec 32) (isRead : Bool) : Packet :=
  if isRead then
    let wbBuffer := memcpy header 10 [0, 1]
    memcpy wbBuffer 16 (host.store (host.htobe32 address))
  else
    let wbBuffer := memcpy header 10 [1, 0]
    let wbBuffer := memcpy wbBuffer 12 (host.store (host.htobe32 address))
    memcpy wbBuffer 16 (host.store (host.htobe32 data))

/-- `eb_fill_write32`. -/
def ebFillWrite32 (host : Endian) (data address : BitVec 32) : Packet :=
  ebFillReadwrite32 host data address false

/-- `eb_fill_read32`. -/
def ebFillRead32 (host : Endian) (address : BitVec 32) : Packet :=
  ebFillReadwrite32 host 0 address true

/-- `eb_unfill_read32`. -/
def ebUnfillRead32 (host : Endian) (wbBuffer : Packet) : BitVec 32 :=
  host.be32toh (host.load (wbBuffer 16) (wbBuffer 17) (wbBuffer 18) (wbBuffer 19))

/-- A request does not depend on the byte order of the host. -/
theorem ebFillReadwrite32_host (host host' : Endian) (data address : BitVec 32) (isRead : Bool) :
    ebFillReadwrite32 host data address isRead = ebFillReadwrite32 host' data address isRead := by
  simp only [ebFillReadwrite32, store_htobe32]

/-! ## Sockets -/

/-- The error numbers that `eb_read32` tells apart. -/
inductive Errno where
  | EINTR
  | EAGAIN
  | other (errno : ℕ)
  deriving DecidableEq, Repr

/-- What `eb_send` and `eb_recv` ask of the socket. -/
inductive SockOp where
  | send (bytes : Packet)
  | recv (maxLen : ℕ)

/-- The outcome of a receive: at most `maxLen` bytes, none of them at the end of the stream, or an
error. -/
inductive Received (maxLen : ℕ) where
  | got (bytes : List Byte) (fits : bytes.length ≤ maxLen)
  | failed (errno : Errno)

namespace Received

variable {maxLen : ℕ}

/-- The bytes received. -/
def bytes : Received maxLen → List Byte
  | got bytes _ => bytes
  | failed _ => []

/-- A failure after which `eb_read32` tries again. -/
def retry : Received maxLen → Bool
  | failed .EINTR | failed .EAGAIN => true
  | _ => false

/-- A failure that `eb_read32` gives up on. -/
def fatal : Received maxLen → Bool
  | failed (.other _) => true
  | _ => false

/-- The peer has closed the connection. -/
def closed : Received maxLen → Bool
  | got [] _ => true
  | _ => false

end Received

/-- The socket interface; a send replies with the number of bytes sent. -/
abbrev SockIface : Signature where
  Op := SockOp
  Reply
    | .send _ => Except Errno ℕ
    | .recv maxLen => Received maxLen

/-! ## Bus accesses -/

/-- A bus access of the linked driver. `readWhile addr busy` is the loop that reads `addr` until the
value read is not `busy`. -/
inductive BusOp where
  | write (val addr : BitVec 32)
  | read (addr : BitVec 32)
  | readWhile (addr : BitVec 32) (busy : BitVec 32 → Bool)

/-- The bus interface. -/
abbrev BusIface : Signature where
  Op := BusOp
  Reply
    | .write _ _ => Unit
    | .read _ => BitVec 32
    | .readWhile _ _ => BitVec 32

/-- `csr_write_simple`. -/
def csrWriteSimple (val addr : BitVec 32) : Prog BusIface Unit :=
  Prog.op (S := BusIface) (.write val addr)

/-- `csr_read_simple`. -/
def csrReadSimple (addr : BitVec 32) : Prog BusIface (BitVec 32) :=
  Prog.op (S := BusIface) (.read addr)

/-- The accessors of the generated `csr.h`, for the addresses it assigns. -/
def regImpl (csrAddr : Csr → BitVec 32) :
    (o : Driver.RegOp) → Prog BusIface (Driver.RegIface.Reply o)
  | .write r v => csrWriteSimple v (csrAddr r)
  | .read r => csrReadSimple (csrAddr r)
  | .readWhile r busy => Prog.op (S := BusIface) (.readWhile (csrAddr r) busy)

/-- The program of a transaction over the bus. -/
def txnProg (csrAddr : Csr → BitVec 32) (t : Driver.Txn) : Prog BusIface Driver.TxnResult :=
  (t.prog.translate Driver.byteImpl).translate (regImpl csrAddr)

/-! ## The client -/

/-- The host that runs the program, and how it is connected to the board. -/
structure Conn where
  host : Endian
  isDirect : Bool

/-- A program that runs over a socket: the access it is at, and `raw_pkt` and the cursor `p` if
`eb_read32` is receiving. -/
structure Client (α : Type) where
  prog : Prog BusIface α
  rx : Option (Packet × Fin 20)

variable {α : Type}

/-- A program that is about to start. -/
def Client.start (prog : Prog BusIface α) : Client α := ⟨prog, none⟩

/-- The program once the read it is at has returned `v`. -/
def answer (prog : Prog BusIface α) (v : BitVec 32) : Prog BusIface α :=
  match prog with
  | .call (.read _) k => k v
  | .call (.readWhile addr busy) k => if busy v then .call (.readWhile addr busy) k else k v
  | prog => prog

/-- One receive of `eb_read32` over TCP: it goes on with the buffer and the cursor, or returns. -/
def recvStream (host : Endian) (rawPkt : Packet) (p : Fin 20) :
    Received (20 - p) → (Packet × Fin 20) ⊕ BitVec 32
  | .failed .EINTR => .inl (rawPkt, p)
  | .failed .EAGAIN => .inl (rawPkt, p)
  | .failed (.other _) => .inr (-1)
  | .got bytes _ =>
    let rawPkt := memcpy rawPkt p bytes
    if more : p + bytes.length < 20 then .inl (rawPkt, ⟨p + bytes.length, more⟩)
    else .inr (ebUnfillRead32 host rawPkt)

/-- The receive of `eb_read32` over UDP. -/
def recvDirect (host : Endian) (rawPkt : Packet) (count : Received 20) : BitVec 32 :=
  match count with
  | .got bytes _ => if bytes.length = 20 then ebUnfillRead32 host (memcpy rawPkt 0 bytes) else -1
  | .failed _ => -1

namespace Client

/-- The client after a receive of `eb_read32`. -/
def resume (prog : Prog BusIface α) : (Packet × Fin 20) ⊕ BitVec 32 → Client α
  | .inl rx => ⟨prog, some rx⟩
  | .inr v => ⟨answer prog v, none⟩

/-- `eb_read32` at `addr`: the request, then the receives. -/
def ebRead32 (conn : Conn) (addr : BitVec 32) (c : Client α) : Next SockIface α (Client α) :=
  let rawPkt := ebFillRead32 conn.host addr
  match c.rx with
  | none => .call (.send rawPkt) fun _ => ⟨c.prog, some (rawPkt, 0)⟩
  | some (rawPkt, p) =>
    if conn.isDirect then
      .call (.recv 20) fun count => resume c.prog (.inr (recvDirect conn.host rawPkt count))
    else
      .call (.recv (20 - p)) fun ret => resume c.prog (recvStream conn.host rawPkt p ret)

/-- `eb_write32`: the result of the send is ignored. -/
def ebWrite32 (conn : Conn) (val addr : BitVec 32) (k : Prog BusIface α) :
    Next SockIface α (Client α) :=
  .call (.send (ebFillWrite32 conn.host val addr)) fun _ => ⟨k, none⟩

/-- What the program does next. -/
def next (conn : Conn) (c : Client α) : Next SockIface α (Client α) :=
  match c.prog with
  | .ret a => .returned a
  | .call (.write val addr) k => ebWrite32 conn val addr (k ())
  | .call (.read addr) _ => ebRead32 conn addr c
  | .call (.readWhile addr _) _ => ebRead32 conn addr c

end Client

/-- The process that runs programs over a connection. -/
def client (conn : Conn) : Process SockIface α (Client α) := ⟨Client.next conn⟩

/-- The connection of `remote-bus/main.c`, over TCP. -/
def tcp (host : Endian) : Conn := ⟨host, false⟩

/-! ## One call -/

section Call

variable {conn : Conn} {host : Endian} {prog : Prog BusIface α} {addr : BitVec 32}
  {rawPkt : Packet} {p : Fin 20}

/-- The program is at a read of `addr`. -/
def Reading (prog : Prog BusIface α) (addr : BitVec 32) : Prop :=
  ∀ conn rx, Client.next conn ⟨prog, rx⟩ = Client.ebRead32 conn addr ⟨prog, rx⟩

theorem reading_read (k : BitVec 32 → Prog BusIface α) :
    Reading (.call (S := BusIface) (.read addr) k) addr := fun _ _ => rfl

theorem reading_readWhile (busy : BitVec 32 → Bool) (k : BitVec 32 → Prog BusIface α) :
    Reading (.call (S := BusIface) (.readWhile addr busy) k) addr := fun _ _ => rfl

/-- A read starts with its request. -/
theorem Reading.next_send (reading : Reading prog addr) : Client.next conn ⟨prog, none⟩ =
    .call (.send (ebFillRead32 conn.host addr)) fun _ =>
      ⟨prog, some (ebFillRead32 conn.host addr, 0)⟩ := by
  rw [reading, Client.ebRead32]

/-- Over TCP it receives what the buffer still lacks. -/
theorem Reading.next_recv (reading : Reading prog addr) :
    Client.next (tcp host) ⟨prog, some (rawPkt, p)⟩ =
      .call (.recv (20 - p)) fun ret => .resume prog (recvStream host rawPkt p ret) := by
  rw [reading, Client.ebRead32]
  rfl

/-- A write sends one request and goes on. -/
theorem write_step {r : ClockedRun (client (α := α) conn).step} {n : ℕ} {val : BitVec 32}
    {k : Unit → Prog BusIface α}
    (hst : (r.st n).prog = .call (S := BusIface) (.write val addr) k) :
    r.st (n + 1) = ⟨k (), none⟩ := by
  have hnext : (client conn).next (r.st n) = Client.ebWrite32 conn val addr (k ()) := by
    change Client.next conn (r.st n) = _
    rw [Client.next, hst]
  rw [r.next, Process.step_call hnext]

/-- After its request a read receives into the packet that held the request. -/
theorem Reading.send_step (reading : Reading prog addr)
    {r : ClockedRun (client (α := α) conn).step} {n : ℕ} (hst : r.st n = ⟨prog, none⟩) :
    r.st (n + 1) = ⟨prog, some (ebFillRead32 conn.host addr, 0)⟩ := by
  have hnext : (client conn).next (r.st n) = _ := hst ▸ reading.next_send
  rw [r.next, Process.step_call hnext]

/-- A receive of a read over TCP. -/
theorem Reading.recv_step (reading : Reading prog addr)
    {r : ClockedRun (client (α := α) (tcp host)).step} {n : ℕ}
    (hst : r.st n = ⟨prog, some (rawPkt, p)⟩) :
    r.st (n + 1) = .resume prog (recvStream host rawPkt p (r.inp n (.recv (20 - p)))) := by
  have hnext : (client (tcp host)).next (r.st n) = _ := hst ▸ reading.next_recv
  rw [r.next, Process.step_call hnext]

/-- `EINTR` and `EAGAIN` leave the receive loop where it is. -/
theorem recvStream_retry {ret : Received (20 - p)} (h : ret.retry = true) :
    recvStream host rawPkt p ret = .inl (rawPkt, p) := by
  cases ret with
  | got bytes fits => cases h
  | failed errno =>
    cases errno with
    | EINTR => rfl
    | EAGAIN => rfl
    | other errno => cases h

/-- Any other failure ends the read with all bits set. -/
theorem recvStream_fatal {ret : Received (20 - p)} (h : ret.fatal = true) :
    recvStream host rawPkt p ret = .inr (-1) := by
  cases ret with
  | got bytes fits => cases h
  | failed errno =>
    cases errno with
    | EINTR => cases h
    | EAGAIN => cases h
    | other errno => rfl

/-- A closed connection leaves the receive loop where it is. -/
theorem recvStream_closed {ret : Received (20 - p)} (h : ret.closed = true) :
    recvStream host rawPkt p ret = .inl (rawPkt, p) := by
  cases ret with
  | failed errno => cases h
  | got bytes fits =>
    cases bytes with
    | cons b bytes => cases h
    | nil =>
      have hbuf : memcpy rawPkt p [] = rawPkt := by
        funext i
        simp [memcpy]
      simp [recvStream, hbuf]

end Call

end Remote

end Rockling
