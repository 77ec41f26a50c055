import Rockling.Lib.Interaction
import Mathlib.Algebra.BigOperators.Group.Finset.Basic
import Mathlib.Algebra.Order.Group.Multiset
import Mathlib.Data.Fintype.Basic

/-!
# Connections

`eb_connect` and `eb_disconnect` of `remote-bus/etherbone.c` and the resources that they take from
the system: descriptors, address lists and blocks of memory. The system is free in what it gives and
what it refuses (`act`). A client opens and closes connections in any order while the rest of its
process opens and closes descriptors of its own (`Client.step`).

A connection over TCP never has its `read_fd` set, and `eb_disconnect` takes 0 there for none. When
the two nevertheless keep the accounts is said by `connections_accounted`.
-/

namespace Rockling

namespace Remote

namespace Connections

/-! ## The system -/

/-- `struct eb_connection`. -/
structure EbConnection where
  fd : ℤ
  readFd : ℤ
  isDirect : Bool
  addr : ℕ
  deriving DecidableEq, Repr

/-- A connection in the block at `ptr`. -/
structure Handle where
  ptr : ℕ
  conn : EbConnection
  deriving DecidableEq, Repr

/-- The kind of socket in the hints and in `socket`. -/
inductive SockKind where
  | dgram
  | stream
  deriving DecidableEq, Repr

/-- What is asked of the system. -/
inductive SysOp where
  | malloc
  | getaddrinfo (addr port : String) (kind : SockKind)
  | socket (kind : SockKind)
  | bind (fd : ℤ) (res : ℕ)
  | connect (fd : ℤ) (res : ℕ)
  | setsockopt (fd : ℤ)
  | close (fd : ℤ)
  | freeaddrinfo (res : ℕ)
  | free (ptr : ℕ)
  | stderr (format : String)

/-- The system interface. `malloc` replies with a block and what happens to be in it. -/
abbrev SysIface : Signature where
  Op := SysOp
  Reply
    | .malloc => Option Handle
    | .getaddrinfo _ _ _ => Except ℤ ℕ
    | .socket _ | .bind _ _ | .connect _ _ | .setsockopt _ => ℤ
    | .close _ | .freeaddrinfo _ | .free _ | .stderr _ => Unit

/-- `malloc` of a `struct eb_connection`. -/
def malloc : Prog SysIface (Option Handle) := Prog.op (S := SysIface) .malloc

/-- `getaddrinfo` with the hints of `eb_connect`: the address list, or an error. -/
def getaddrinfo (addr port : String) (kind : SockKind) : Prog SysIface (Except ℤ ℕ) :=
  Prog.op (S := SysIface) (.getaddrinfo addr port kind)

/-- `socket`. -/
def socket (kind : SockKind) : Prog SysIface ℤ := Prog.op (S := SysIface) (.socket kind)

/-- `bind` to any address and the port in `res`. -/
def bind (fd : ℤ) (res : ℕ) : Prog SysIface ℤ := Prog.op (S := SysIface) (.bind fd res)

/-- `connect` to the address in `res`. -/
def connect (fd : ℤ) (res : ℕ) : Prog SysIface ℤ := Prog.op (S := SysIface) (.connect fd res)

/-- `setsockopt` of `TCP_NODELAY`. -/
def setsockopt (fd : ℤ) : Prog SysIface ℤ := Prog.op (S := SysIface) (.setsockopt fd)

/-- `close`. -/
def close (fd : ℤ) : Prog SysIface Unit := Prog.op (S := SysIface) (.close fd)

/-- `freeaddrinfo`. -/
def freeaddrinfo (res : ℕ) : Prog SysIface Unit := Prog.op (S := SysIface) (.freeaddrinfo res)

/-- `free`. -/
def free (ptr : ℕ) : Prog SysIface Unit := Prog.op (S := SysIface) (.free ptr)

/-- `fprintf` and `perror`, of which only the format is kept. -/
def stderr (format : String) : Prog SysIface Unit := Prog.op (S := SysIface) (.stderr format)

/-! ## Connect and disconnect -/

/-- `eb_connect` with the address found, over UDP: one socket to receive and one to send. -/
def ebConnectDirect (h : Handle) (res : ℕ) : Prog SysIface (Option Handle) := do
  -- Rx half
  let rxSocket ← socket .dgram
  if rxSocket = -1 then
    stderr "Unable to create Rx socket: %s\n"
    freeaddrinfo res
    free h.ptr
    return none
  else
    let bound ← bind rxSocket res
    if bound = -1 then
      stderr "Unable to bind Rx socket to port: %s\n"
      close rxSocket
      freeaddrinfo res
      free h.ptr
      return none
    else
      -- Tx half
      let txSocket ← socket .dgram
      if txSocket = -1 then
        stderr "Unable to create socket: %s\n"
        close rxSocket
        -- there is none: it closes descriptor -1
        close txSocket
        freeaddrinfo res
        stderr "unable to create socket: %s\n"
        free h.ptr
        return none
      else
        let conn := { h.conn with readFd := rxSocket, fd := txSocket, addr := res }
        return some { h with conn := conn }

/-- `eb_connect` with the address found, over TCP. -/
def ebConnectStream (h : Handle) (res : ℕ) : Prog SysIface (Option Handle) := do
  let sock ← socket .stream
  if sock = -1 then
    stderr "failed to create socket: %s\n"
    freeaddrinfo res
    free h.ptr
    return none
  else
    let connection ← connect sock res
    if connection = -1 then
      close sock
      freeaddrinfo res
      stderr "unable to create socket: %s\n"
      free h.ptr
      return none
    else
      let ret ← setsockopt sock
      if ret < 0 then
        close sock
        freeaddrinfo res
        stderr "setsockopt error: %s\n"
        free h.ptr
        return none
      else
        -- `read_fd` stays what it was in the block
        return some { h with conn := { h.conn with fd := sock, addr := res } }

/-- `eb_connect`. -/
def ebConnect (addr port : String) (isDirect : Bool) : Prog SysIface (Option Handle) := do
  match ← malloc with
  | none =>
    stderr "couldn't allocate memory for eb_connection"
    return none
  | some h =>
    match ← getaddrinfo addr port (if isDirect then .dgram else .stream) with
    | .error _ =>
      stderr "failed to resolve remote socket address (err=%d / %s)\n"
      free h.ptr
      return none
    | .ok res =>
      let h := { h with conn := { h.conn with isDirect := isDirect } }
      if isDirect then ebConnectDirect h res else ebConnectStream h res

/-- `eb_disconnect`, on a variable that holds a connection or `NULL`, or on no variable at all. It
returns what the variable holds afterwards. -/
def ebDisconnect : Option (Option Handle) → Prog SysIface (Option (Option Handle))
  | some (some h) => do
    freeaddrinfo h.conn.addr
    close h.conn.fd
    if h.conn.readFd ≠ 0 then
      close h.conn.readFd
      free h.ptr
      return some none
    else
      free h.ptr
      return some none
  | conn => return conn

/-! ## Resources -/

/-- What a process holds, and whether it has released memory that it does not hold. -/
structure Held where
  fds : Multiset ℤ
  infos : Multiset ℕ
  blocks : Multiset ℕ
  fault : Bool

/-- What the system makes of one call: the number that it returns, the pointer that it gives out,
and what is in a new block. -/
structure Choice where
  number : ℤ
  ptr : ℕ
  holds : EbConnection

/-- A system that makes these choices, one for each call. It gives out no descriptor and no pointer
that is in use. The state counts the calls. -/
def act (choice : ℕ → Choice) : (o : SysOp) → ℕ × Held → SysIface.Reply o × ℕ × Held
  | .malloc, (n, s) =>
    let ptr := (choice n).ptr
    if ptr = 0 ∨ ptr ∈ s.blocks then (none, n + 1, s)
    else (some ⟨ptr, (choice n).holds⟩, n + 1, { s with blocks := ptr ::ₘ s.blocks })
  | .getaddrinfo _ _ _, (n, s) =>
    let res := (choice n).ptr
    if res = 0 ∨ res ∈ s.infos then (.error (choice n).number, n + 1, s)
    else (.ok res, n + 1, { s with infos := res ::ₘ s.infos })
  | .socket _, (n, s) =>
    let fd := (choice n).number
    if 0 ≤ fd ∧ fd ∉ s.fds then (fd, n + 1, { s with fds := fd ::ₘ s.fds }) else (-1, n + 1, s)
  | .bind _ _, (n, s) | .connect _ _, (n, s) | .setsockopt _, (n, s) =>
    ((choice n).number, n + 1, s)
  | .close fd, (n, s) => ((), n + 1, { s with fds := s.fds.erase fd })
  | .freeaddrinfo res, (n, s) =>
    ((), n + 1,
      { s with infos := s.infos.erase res, fault := s.fault || decide (res ∉ s.infos) })
  | .free ptr, (n, s) =>
    ((), n + 1,
      { s with blocks := s.blocks.erase ptr, fault := s.fault || decide (ptr ∉ s.blocks) })
  | .stderr _, (n, s) => ((), n + 1, s)

/-- The descriptors of a connection. -/
def Handle.fds (h : Handle) : Multiset ℤ :=
  if h.conn.isDirect then {h.conn.fd, h.conn.readFd} else {h.conn.fd}

namespace Held

/-- What a process can hold: every resource once. -/
structure Sound (s : Held) : Prop where
  fds : s.fds.Nodup
  valid : ∀ fd ∈ s.fds, 0 ≤ fd
  infos : s.infos.Nodup
  blocks : s.blocks.Nodup

variable (s : Held)

/-- With a connection. -/
def add (h : Handle) : Held :=
  { s with fds := h.fds + s.fds, infos := h.conn.addr ::ₘ s.infos, blocks := h.ptr ::ₘ s.blocks }

/-- With the memory that `eb_connect` has taken when it opens its sockets. -/
def addMemory (ptr res : ℕ) : Held :=
  { s with infos := res ::ₘ s.infos, blocks := ptr ::ₘ s.blocks }

end Held

section Connect

variable (choice : ℕ → Choice)

/-- An attempt to connect: it fails and nothing has changed, or there is a connection more. -/
def Attempt (s : Held) (isDirect : Bool) : Option Handle × ℕ × Held → Prop
  | (none, _, s') => s' = s
  | (some h, _, s') => h.conn.isDirect = isDirect ∧ s' = s.add h ∧ s'.Sound

variable {choice}

section Run

variable {α : Type} {n : ℕ} {s : Held}

@[simp] theorem run_bind {k : ℤ → Prog SysIface α} {fd : ℤ} {res : ℕ} :
    (bind fd res >>= k).run (act choice) (n, s) =
      (k (choice n).number).run (act choice) (n + 1, s) := rfl

@[simp] theorem run_connect {k : ℤ → Prog SysIface α} {fd : ℤ} {res : ℕ} :
    (connect fd res >>= k).run (act choice) (n, s) =
      (k (choice n).number).run (act choice) (n + 1, s) := rfl

@[simp] theorem run_setsockopt {k : ℤ → Prog SysIface α} {fd : ℤ} :
    (setsockopt fd >>= k).run (act choice) (n, s) =
      (k (choice n).number).run (act choice) (n + 1, s) := rfl

@[simp] theorem run_close {k : Unit → Prog SysIface α} {fd : ℤ} : (close fd >>= k).run (act choice)
    (n, s) = (k ()).run (act choice) (n + 1, { s with fds := s.fds.erase fd }) := rfl

@[simp] theorem run_freeaddrinfo {k : Unit → Prog SysIface α} {res : ℕ} :
    (freeaddrinfo res >>= k).run (act choice) (n, s) = (k ()).run (act choice) (n + 1, { s with
      infos := s.infos.erase res, fault := s.fault || decide (res ∉ s.infos) }) := rfl

@[simp] theorem run_free {k : Unit → Prog SysIface α} {ptr : ℕ} :
    (free ptr >>= k).run (act choice) (n, s) = (k ()).run (act choice) (n + 1, { s with
      blocks := s.blocks.erase ptr, fault := s.fault || decide (ptr ∉ s.blocks) }) := rfl

@[simp] theorem run_stderr {k : Unit → Prog SysIface α} {format : String} :
    (stderr format >>= k).run (act choice) (n, s) = (k ()).run (act choice) (n + 1, s) := rfl

end Run

variable {s : Held} {h : Handle} {res : ℕ}

/-- A block: none, or a new one. -/
theorem malloc_cases {α : Type} {Q : α × ℕ × Held → Prop} {k : Option Handle → Prog SysIface α}
    {n : ℕ} {s : Held} (none : Q ((k none).run (act choice) (n + 1, s)))
    (some : ∀ h, h.ptr ∉ s.blocks →
      Q ((k (some h)).run (act choice) (n + 1, { s with blocks := h.ptr ::ₘ s.blocks }))) :
    Q ((malloc >>= k).run (act choice) (n, s)) := by
  let h : Handle := ⟨(choice n).ptr, (choice n).holds⟩
  have reply : act choice .malloc (n, s) = if h.ptr = 0 ∨ h.ptr ∈ s.blocks then (.none, n + 1, s)
      else (.some h, n + 1, { s with blocks := h.ptr ::ₘ s.blocks }) := rfl
  change Q ((k (act choice .malloc (n, s)).1).run (act choice) (act choice .malloc (n, s)).2)
  rw [reply]
  by_cases refused : h.ptr = 0 ∨ h.ptr ∈ s.blocks
  · rw [if_pos refused]
    exact none
  · rw [if_neg refused]
    exact some h fun used => refused (Or.inr used)

/-- An address list: an error, or a new list. -/
theorem getaddrinfo_cases {α : Type} {Q : α × ℕ × Held → Prop} {addr port : String}
    {kind : SockKind} {k : Except ℤ ℕ → Prog SysIface α} {n : ℕ} {s : Held}
    (error : ∀ err, Q ((k (.error err)).run (act choice) (n + 1, s)))
    (ok : ∀ res, res ∉ s.infos →
      Q ((k (.ok res)).run (act choice) (n + 1, { s with infos := res ::ₘ s.infos }))) :
    Q ((getaddrinfo addr port kind >>= k).run (act choice) (n, s)) := by
  let o : SysOp := .getaddrinfo addr port kind
  let res := (choice n).ptr
  have reply : act choice o (n, s) = if res = 0 ∨ res ∈ s.infos then
      (.error (choice n).number, n + 1, s)
      else (.ok res, n + 1, { s with infos := res ::ₘ s.infos }) := rfl
  change Q ((k (act choice o (n, s)).1).run (act choice) (act choice o (n, s)).2)
  rw [reply]
  by_cases refused : res = 0 ∨ res ∈ s.infos
  · rw [if_pos refused]
    exact error _
  · rw [if_neg refused]
    exact ok res fun used => refused (Or.inr used)

theorem act_socket (kind : SockKind) (n : ℕ) (s : Held) : act choice (.socket kind) (n, s) =
    if 0 ≤ (choice n).number ∧ (choice n).number ∉ s.fds then
      ((choice n).number, n + 1, { s with fds := (choice n).number ::ₘ s.fds })
    else (-1, n + 1, s) := rfl

/-- A socket: none, or one with a new descriptor. -/
theorem socket_cases {α : Type} {Q : α × ℕ × Held → Prop} {kind : SockKind}
    {k : ℤ → Prog SysIface α} {n : ℕ} {s : Held} (none : Q ((k (-1)).run (act choice) (n + 1, s)))
    (some : ∀ fd, 0 ≤ fd → fd ∉ s.fds →
      Q ((k fd).run (act choice) (n + 1, { s with fds := fd ::ₘ s.fds }))) :
    Q ((socket kind >>= k).run (act choice) (n, s)) := by
  change Q ((k (act choice (.socket kind) (n, s)).1).run (act choice)
    (act choice (.socket kind) (n, s)).2)
  rw [act_socket]
  by_cases new : 0 ≤ (choice n).number ∧ (choice n).number ∉ s.fds
  · rw [if_pos new]
    exact some _ new.1 new.2
  · rw [if_neg new]
    exact none

/-- Both sockets of a connection over UDP are opened, or neither. -/
theorem ebConnectDirect_attempt (sound : (s.addMemory h.ptr res).Sound)
    (direct : h.conn.isDirect = true) (n : ℕ) :
    Attempt s true ((ebConnectDirect h res).run (act choice) (n, s.addMemory h.ptr res)) := by
  refine socket_cases ?_ fun rx rxValid rxNew => ?_
  · simp [Attempt, Held.addMemory]
  have rxOpen : rx ≠ -1 := by omega
  rw [if_neg rxOpen, run_bind]
  by_cases bound : (choice (n + 1)).number = -1
  · simp [Attempt, Held.addMemory, bound]
  rw [if_neg bound]
  refine socket_cases ?_ fun tx txValid txNew => ?_
  · have other : (-1 : ℤ) ∉ s.fds := fun mem => absurd (sound.valid _ mem) (by decide)
    simp [Attempt, Held.addMemory, Multiset.erase_of_notMem other]
  have txOpen : tx ≠ -1 := by omega
  rw [if_neg txOpen]
  have both : (tx ::ₘ rx ::ₘ s.fds).Nodup :=
    Multiset.nodup_cons.mpr ⟨txNew, Multiset.nodup_cons.mpr ⟨rxNew, sound.fds⟩⟩
  have fds (h' : Handle) (conn : h'.conn = { h.conn with readFd := rx, fd := tx, addr := res }) :
      h'.fds + s.fds = tx ::ₘ rx ::ₘ s.fds := by
    rw [Handle.fds, conn, if_pos direct, Multiset.insert_eq_cons, Multiset.cons_add,
      Multiset.singleton_add]
  refine ⟨direct, ?_, ⟨both, ?_, sound.infos, sound.blocks⟩⟩
  · rw [Held.add, fds _ rfl]
    rfl
  · intro fd mem
    rcases Multiset.mem_cons.mp mem with rfl | mem
    · exact txValid
    rcases Multiset.mem_cons.mp mem with rfl | mem
    · exact rxValid
    · exact sound.valid fd mem

/-- The socket of a connection over TCP is opened, or not. -/
theorem ebConnectStream_attempt (sound : (s.addMemory h.ptr res).Sound)
    (stream : h.conn.isDirect = false) (n : ℕ) :
    Attempt s false ((ebConnectStream h res).run (act choice) (n, s.addMemory h.ptr res)) := by
  refine socket_cases ?_ fun sock valid new => ?_
  · simp [Attempt, Held.addMemory]
  have opened : sock ≠ -1 := by omega
  rw [if_neg opened, run_connect]
  by_cases connected : (choice (n + 1)).number = -1
  · simp [Attempt, Held.addMemory, connected]
  rw [if_neg connected, run_setsockopt]
  by_cases ret : (choice (n + 2)).number < 0
  · simp [Attempt, Held.addMemory, ret]
  rw [if_neg ret]
  have fds (h' : Handle) (conn : h'.conn = { h.conn with fd := sock, addr := res }) :
      h'.fds + s.fds = sock ::ₘ s.fds := by
    rw [Handle.fds, conn, stream]
    exact Multiset.singleton_add _ _
  refine ⟨stream, ?_, ⟨Multiset.nodup_cons.mpr ⟨new, sound.fds⟩, ?_, sound.infos, sound.blocks⟩⟩
  · rw [Held.add, fds _ rfl]
    rfl
  · intro fd mem
    rcases Multiset.mem_cons.mp mem with rfl | mem
    · exact valid
    · exact sound.valid fd mem

/-- **`eb_connect` keeps the accounts.** Whatever the system refuses, an attempt that fails has
released all that it took. -/
theorem ebConnect_attempt (sound : s.Sound) (addr port : String) (isDirect : Bool) (n : ℕ) :
    Attempt s isDirect ((ebConnect addr port isDirect).run (act choice) (n, s)) := by
  unfold ebConnect
  refine malloc_cases ?_ fun h new => ?_
  · simp [Attempt]
  refine getaddrinfo_cases (fun err => ?_) fun res unused => ?_
  · simp [Attempt]
  let h' : Handle := { h with conn := { h.conn with isDirect := isDirect } }
  have sound' : (s.addMemory h'.ptr res).Sound := ⟨sound.fds, sound.valid,
    Multiset.nodup_cons.mpr ⟨unused, sound.infos⟩, Multiset.nodup_cons.mpr ⟨new, sound.blocks⟩⟩
  cases isDirect with
  | true => exact ebConnectDirect_attempt (h := h') sound' rfl _
  | false => exact ebConnectStream_attempt (h := h') sound' rfl _

end Connect

section Disconnect

variable {choice : ℕ → Choice} {s : Held} {h : Handle}

/-- When `eb_disconnect` closes the descriptors of the connection and no other: over UDP `read_fd`
is not 0, and over TCP what is in `read_fd` is 0 or no descriptor of anything else. -/
def Handle.Clean (h : Handle) (rest : Held) : Prop :=
  if h.conn.isDirect then h.conn.readFd ≠ 0 else h.conn.readFd = 0 ∨ h.conn.readFd ∉ rest.fds

instance (rest : Held) : Decidable (h.Clean rest) :=
  inferInstanceAs (Decidable (if h.conn.isDirect = true then h.conn.readFd ≠ 0 else
    h.conn.readFd = 0 ∨ h.conn.readFd ∉ rest.fds))

/-- `eb_disconnect` sets the variable to `NULL`. -/
theorem ebDisconnect_null (conn : Option Handle) (x : ℕ × Held) :
    ((ebDisconnect (some conn)).run (act choice) x).1 = some none := by
  obtain ⟨n, s⟩ := x
  cases conn with
  | none => rfl
  | some h =>
    by_cases none : h.conn.readFd = 0
    · simp [ebDisconnect, none]
    · simp [ebDisconnect, none]

/-- What is left after `eb_disconnect`. -/
theorem ebDisconnect_held (n : ℕ) :
    ((ebDisconnect (some (some h))).run (act choice) (n, s.add h)).2.2 =
      { s with fds := if h.conn.readFd ≠ 0 then
          ((h.fds + s.fds).erase h.conn.fd).erase h.conn.readFd
        else (h.fds + s.fds).erase h.conn.fd } := by
  by_cases none : h.conn.readFd = 0
  · simp [ebDisconnect, Held.add, none]
  · simp [ebDisconnect, Held.add, none]

/-- It leaves the rest of the process as it is exactly if it is clean. -/
theorem ebDisconnect_iff (n : ℕ) :
    ((ebDisconnect (some (some h))).run (act choice) (n, s.add h)).2.2 = s ↔ h.Clean s := by
  rw [ebDisconnect_held n, Handle.Clean]
  have only (fds : Multiset ℤ) : ({ s with fds := fds } : Held) = s ↔ fds = s.fds :=
    ⟨congrArg Held.fds, fun same => by rw [same]⟩
  rw [only, Handle.fds]
  by_cases direct : h.conn.isDirect = true
  · rw [if_pos direct, if_pos direct, Multiset.insert_eq_cons, Multiset.cons_add,
      Multiset.singleton_add, Multiset.erase_cons_head]
    by_cases none : h.conn.readFd = 0
    · -- the socket that receives is left open
      rw [if_neg (not_not.mpr none)]
      exact iff_of_false (fun same => by simpa using congrArg Multiset.card same) (not_not.mpr none)
    · rw [if_pos none, Multiset.erase_cons_head]
      exact iff_of_true rfl none
  · rw [if_neg direct, if_neg direct, Multiset.singleton_add, Multiset.erase_cons_head]
    by_cases none : h.conn.readFd = 0
    · rw [if_neg (not_not.mpr none)]
      exact iff_of_true rfl (Or.inl none)
    · rw [if_pos none, or_iff_right none]
      constructor
      · -- a descriptor of something else has been closed
        intro same used
        have card := congrArg Multiset.card same
        rw [Multiset.card_erase_of_mem used] at card
        have pos := Multiset.card_pos_iff_exists_mem.mpr ⟨_, used⟩
        exact absurd card (Nat.pred_ne_self pos.ne')
      · exact Multiset.erase_of_notMem

end Disconnect

/-! ## A client -/

/-- A process: the connection that each variable of the client holds, if any, what the process
holds, the calls of the system so far, and what of it the rest of the process holds. -/
structure Client (ι : Type) where
  vars : ι → Option Handle
  held : Held
  calls : ℕ
  others : Held

/-- What can happen: the client connects into a variable or disconnects one, and the rest of the
process opens a descriptor or closes one of its own. -/
inductive ClientOp (ι : Type) where
  | connect (i : ι) (addr port : String) (isDirect : Bool)
  | disconnect (i : ι)
  | opens (kind : SockKind)
  | closes (fd : ℤ)

section Client

variable {ι : Type} [Fintype ι] [DecidableEq ι]

/-- The account of a process: what the rest of it holds, and every connection once. -/
def account (others : Held) (vars : ι → Option Handle) : Held where
  fds := ∑ i, ((vars i).map Handle.fds).getD 0 + others.fds
  infos := ∑ i, ((vars i).map fun h => {h.conn.addr}).getD 0 + others.infos
  blocks := ∑ i, ((vars i).map fun h => {h.ptr}).getD 0 + others.blocks
  fault := others.fault

/-- The process holds what is in its account, and has released no memory that was not its own. -/
structure Ledger (c : Client ι) : Prop where
  held : c.held = account c.others c.vars
  sound : c.held.Sound
  faultless : c.held.fault = false

/-- The account without variable `i`. -/
def Client.rest (c : Client ι) (i : ι) : Held := account c.others (Function.update c.vars i none)

/-- The system has been called, and variable `i` set. -/
def Client.set (c : Client ι) (i : ι) (conn : Option Handle) (x : ℕ × Held) : Client ι :=
  { c with vars := Function.update c.vars i conn, calls := x.1, held := x.2 }

/-- One thing that happens. -/
def Client.step (choice : ℕ → Choice) (c : Client ι) : ClientOp ι → Client ι
  | .connect i addr port isDirect =>
    let x := (ebConnect addr port isDirect).run (act choice) (c.calls, c.held)
    c.set i x.1 x.2
  | .disconnect i =>
    let x := (ebDisconnect (some (c.vars i))).run (act choice) (c.calls, c.held)
    c.set i (x.1.getD none) x.2
  | .opens kind =>
    let x := act choice (.socket kind) (c.calls, c.held)
    { c with
      calls := x.2.1
      held := x.2.2
      others := if x.1 = -1 then c.others else { c.others with fds := x.1 ::ₘ c.others.fds } }
  | .closes fd =>
    if fd ∈ c.others.fds then
      { c with
        held := { c.held with fds := c.held.fds.erase fd }
        others := { c.others with fds := c.others.fds.erase fd } }
    else c

/-- What a client has to see to: it connects into a variable that holds no connection, and what it
disconnects is clean. -/
def Client.CleanStep (c : Client ι) : ClientOp ι → Prop
  | .connect i _ _ _ => c.vars i = none
  | .disconnect i => ∀ h, c.vars i = some h → h.Clean (c.rest i)
  | .opens _ | .closes _ => True

/-- What happens, one after the other. -/
def Client.run (choice : ℕ → Choice) (c : Client ι) : List (ClientOp ι) → Client ι
  | [] => c
  | op :: ops => (c.step choice op).run choice ops

/-- Every step satisfies `P`. -/
def Client.Each (P : Client ι → ClientOp ι → Prop) (choice : ℕ → Choice) (c : Client ι) :
    List (ClientOp ι) → Prop
  | [] => True
  | op :: ops => P c op ∧ (c.step choice op).Each P choice ops

/-- A client that only connects over UDP, in a process that leaves descriptor 0 open. -/
def Client.DirectStep (c : Client ι) : ClientOp ι → Prop
  | .connect i _ _ isDirect => c.vars i = none ∧ isDirect = true
  | .closes fd => fd ≠ 0
  | .disconnect _ | .opens _ => True

/-- It has only connected over UDP so far, and descriptor 0 is open. -/
structure Client.Direct (c : Client ι) : Prop where
  zero : 0 ∈ c.others.fds
  direct : ∀ i h, c.vars i = some h → h.conn.isDirect = true

variable {choice : ℕ → Choice} {c : Client ι} {others : Held} {vars : ι → Option Handle}

theorem sum_update {M : Type} [AddCommMonoid M] (f : Handle → M) {i : ι} (none : vars i = none)
    (h : Handle) : ∑ j, ((Function.update vars i (some h) j).map f).getD 0 =
      f h + ∑ j, ((vars j).map f).getD 0 := by
  rw [← Finset.add_sum_erase _ _ (Finset.mem_univ i), Function.update_self,
    ← Finset.add_sum_erase Finset.univ (fun j => ((vars j).map f).getD 0) (Finset.mem_univ i), none]
  have same : ∑ j ∈ Finset.univ.erase i, ((Function.update vars i (some h) j).map f).getD 0 =
      ∑ j ∈ Finset.univ.erase i, ((vars j).map f).getD 0 := by
    refine Finset.sum_congr rfl fun j mem => ?_
    rw [Function.update_of_ne (Finset.ne_of_mem_erase mem)]
  rw [same]
  exact congrArg (f h + ·) (zero_add _).symm

/-- A connection more. -/
theorem account_add {i : ι} (none : vars i = none) (h : Handle) :
    account others (Function.update vars i (some h)) = (account others vars).add h := by
  rw [account, sum_update _ none, sum_update _ none, sum_update _ none, add_assoc, add_assoc,
    add_assoc, Multiset.singleton_add, Multiset.singleton_add]
  rfl

/-- The account with what is in variable `i`. -/
theorem account_update (i : ι) (h : Handle) : account others (Function.update vars i (some h)) =
    (account others (Function.update vars i none)).add h := by
  rw [← account_add (Function.update_self i none vars), Function.update_idem]

theorem Client.account_some {i : ι} {h : Handle} (var : c.vars i = some h) :
    account c.others c.vars = (c.rest i).add h := by
  rw [rest, ← account_update, ← var, Function.update_eq_self]

theorem Client.account_none {i : ι} (var : c.vars i = none) :
    account c.others c.vars = c.rest i := by
  rw [rest, ← var, Function.update_eq_self]

/-- A connection counts. -/
theorem Held.add_ne (s : Held) (h : Handle) : s.add h ≠ s := fun same => by
  have card := congrArg (fun s => Multiset.card s.blocks) same
  simp [add] at card

theorem Held.Sound.of_add {s : Held} {h : Handle} (sound : (s.add h).Sound) : s.Sound where
  fds := (Multiset.nodup_add.mp sound.fds).2.1
  valid fd mem := sound.valid fd (Multiset.mem_add.mpr (Or.inr mem))
  infos := (Multiset.nodup_cons.mp sound.infos).2
  blocks := (Multiset.nodup_cons.mp sound.blocks).2

/-- Connecting keeps the accounts exactly if the variable holds no connection. -/
theorem Ledger.connect_iff (ledger : Ledger c) (i : ι) (addr port : String) (isDirect : Bool) :
    Ledger (c.step choice (.connect i addr port isDirect)) ↔ c.vars i = none := by
  have attempt := @ebConnect_attempt choice c.held ledger.sound addr port isDirect c.calls
  rw [Client.step]
  generalize (ebConnect addr port isDirect).run (act choice) (c.calls, c.held) = x at attempt ⊢
  obtain ⟨conn, calls, held⟩ := x
  cases var : c.vars i with
  | none =>
    refine iff_of_true ?_ rfl
    have before : c.held = c.rest i := ledger.held.trans (Client.account_none var)
    cases conn with
    | none =>
      obtain rfl : held = c.held := attempt
      exact ⟨before, ledger.sound, ledger.faultless⟩
    | some h =>
      obtain ⟨-, rfl, sound⟩ := attempt
      refine ⟨?_, sound, ledger.faultless⟩
      change c.held.add h = _
      rw [before]
      exact (account_update i h).symm
  | some lost =>
    -- its resources are still held, and no variable leads to them
    refine iff_of_false (fun after => ?_) (by simp)
    have before : c.held = (c.rest i).add lost := ledger.held.trans (Client.account_some var)
    have now : held = account c.others (Function.update c.vars i conn) := after.held
    cases conn with
    | none =>
      obtain rfl : held = c.held := attempt
      exact Held.add_ne (c.rest i) lost (before.symm.trans now)
    | some h =>
      obtain ⟨-, rfl, -⟩ := attempt
      rw [account_update, before] at now
      have card := congrArg (fun s => Multiset.card s.blocks) now
      simp [Held.add, Client.rest] at card

/-- Disconnecting keeps them exactly if it is clean. -/
theorem Ledger.disconnect_iff (ledger : Ledger c) (i : ι) :
    Ledger (c.step choice (.disconnect i)) ↔ ∀ h, c.vars i = some h → h.Clean (c.rest i) := by
  cases var : c.vars i with
  | none =>
    refine iff_of_true ?_ fun h some => by cases some
    rw [Client.step, var]
    refine ⟨?_, ledger.sound, ledger.faultless⟩
    exact ledger.held.trans (Client.account_none var)
  | some h =>
    have before : c.held = (c.rest i).add h := ledger.held.trans (Client.account_some var)
    have iff := @ebDisconnect_iff choice (c.rest i) h c.calls
    have null := @ebDisconnect_null choice (some h) (c.calls, (c.rest i).add h)
    have sound := ledger.sound
    have faultless := ledger.faultless
    rw [before] at sound faultless
    rw [Client.step, var, before]
    generalize (ebDisconnect (some (some h))).run (act choice) (c.calls, (c.rest i).add h) = x
      at iff null ⊢
    obtain ⟨conn, calls, held⟩ := x
    obtain rfl : conn = some none := null
    constructor
    · rintro after h' same
      cases same
      exact iff.mp after.held
    · intro clean
      obtain rfl : held = c.rest i := iff.mpr (clean h rfl)
      exact ⟨rfl, sound.of_add, faultless⟩

/-- A descriptor of the rest of the process. -/
theorem Ledger.opens (ledger : Ledger c) (kind : SockKind) :
    Ledger (c.step choice (.opens kind)) := by
  rw [Client.step, act_socket]
  by_cases new : 0 ≤ (choice c.calls).number ∧ (choice c.calls).number ∉ c.held.fds
  · rw [if_pos new]
    have opened : (choice c.calls).number ≠ -1 := by omega
    refine ⟨?_, ⟨Multiset.nodup_cons.mpr ⟨new.2, ledger.sound.fds⟩, ?_, ledger.sound.infos,
      ledger.sound.blocks⟩, ledger.faultless⟩
    · dsimp only
      rw [if_neg opened, account, Multiset.add_cons]
      exact congrArg (fun s : Held =>
        ({ s with fds := (choice c.calls).number ::ₘ s.fds } : Held)) ledger.held
    · intro fd mem
      rcases Multiset.mem_cons.mp mem with rfl | mem
      · exact new.1
      · exact ledger.sound.valid fd mem
  · rw [if_neg new]
    exact ⟨ledger.held, ledger.sound, ledger.faultless⟩

theorem Ledger.closes (ledger : Ledger c) (fd : ℤ) : Ledger (c.step choice (.closes fd)) := by
  rw [Client.step]
  split
  · next own =>
    refine ⟨?_, ⟨ledger.sound.fds.erase fd, fun fd' mem =>
      ledger.sound.valid fd' (Multiset.mem_of_mem_erase mem), ledger.sound.infos,
      ledger.sound.blocks⟩, ledger.faultless⟩
    change ({ c.held with fds := c.held.fds.erase fd } : Held) = _
    rw [ledger.held]
    unfold account
    dsimp only
    rw [Multiset.erase_add_right_pos _ own]
  · exact ledger

/-- One step keeps the accounts exactly if it is clean. -/
theorem Ledger.step_iff (ledger : Ledger c) (op : ClientOp ι) :
    Ledger (c.step choice op) ↔ c.CleanStep op := by
  cases op with
  | connect i addr port isDirect => exact ledger.connect_iff i addr port isDirect
  | disconnect i => exact ledger.disconnect_iff i
  | opens kind => exact iff_of_true (ledger.opens kind) trivial
  | closes fd => exact iff_of_true (ledger.closes fd) trivial

/-- Over UDP `read_fd` is not 0 if that descriptor is open, so every step is clean. -/
theorem Client.Direct.clean (direct : c.Direct) (ledger : Ledger c) {op : ClientOp ι}
    (step : c.DirectStep op) : c.CleanStep op := by
  cases op with
  | connect i addr port isDirect => exact step.1
  | disconnect i =>
    intro h var
    have isDirect := direct.direct i h var
    have sound := ledger.sound
    rw [ledger.held, Client.account_some var] at sound
    have apart := (Multiset.nodup_add.mp sound.fds).2.2
    have zero : 0 ∈ (c.rest i).fds := Multiset.mem_add.mpr (Or.inr direct.zero)
    have mine : h.conn.readFd ∈ h.fds := by
      rw [Handle.fds, if_pos isDirect]
      simp
    rw [Handle.Clean, if_pos isDirect]
    intro readFd
    rw [readFd] at mine
    exact Multiset.disjoint_left.mp apart mine zero
  | opens kind => trivial
  | closes fd => trivial

theorem Client.Direct.step (direct : c.Direct) (ledger : Ledger c) {op : ClientOp ι}
    (step : c.DirectStep op) : (c.step choice op).Direct := by
  have vars {i : ι} {conn : Option Handle} (all : ∀ h, conn = some h → h.conn.isDirect = true)
      (j : ι) (h : Handle) (var : Function.update c.vars i conn j = some h) :
      h.conn.isDirect = true := by
    by_cases here : j = i
    · rw [here, Function.update_self] at var
      exact all h var
    · rw [Function.update_of_ne here] at var
      exact direct.direct j h var
  cases op with
  | connect i addr port isDirect =>
    obtain ⟨-, rfl⟩ := step
    refine ⟨direct.zero, vars fun h made => ?_⟩
    have attempt := @ebConnect_attempt choice c.held ledger.sound addr port true c.calls
    generalize (ebConnect addr port true).run (act choice) (c.calls, c.held) = x at attempt made
    obtain ⟨conn, calls, held⟩ := x
    obtain rfl : conn = some h := made
    exact attempt.1
  | disconnect i =>
    refine ⟨direct.zero, vars fun h made => ?_⟩
    rw [ebDisconnect_null] at made
    cases made
  | opens kind =>
    refine ⟨?_, direct.direct⟩
    rw [Client.step]
    split
    · exact direct.zero
    · exact Multiset.mem_cons_of_mem direct.zero
  | closes fd =>
    rw [Client.step]
    split
    · exact ⟨(Multiset.mem_erase_of_ne step.symm).mpr direct.zero, direct.direct⟩
    · exact direct

theorem Ledger.run_iff (ledger : Ledger c) (ops : List (ClientOp ι)) :
    (∀ n, Ledger (c.run choice (ops.take n))) ↔ c.Each Client.CleanStep choice ops := by
  induction ops generalizing c with
  | nil => exact iff_of_true (fun n => by rw [List.take_nil]; exact ledger) trivial
  | cons op ops ih =>
    constructor
    · intro all
      have next : Ledger (c.step choice op) := all 1
      exact ⟨(ledger.step_iff op).mp next, (ih next).mp fun n => all (n + 1)⟩
    · rintro ⟨clean, rest⟩ n
      cases n with
      | zero => exact ledger
      | succ n => exact (ih ((ledger.step_iff op).mpr clean)).mpr rest n

theorem Client.Direct.run (direct : c.Direct) (ledger : Ledger c) {ops : List (ClientOp ι)}
    (steps : c.Each Client.DirectStep choice ops) : c.Each Client.CleanStep choice ops := by
  induction ops generalizing c with
  | nil => trivial
  | cons op ops ih =>
    have clean := direct.clean ledger steps.1
    exact ⟨clean, ih (direct.step ledger steps.1) ((ledger.step_iff op).mpr clean) steps.2⟩

/-- **Connections are accounted for.** A client opens and closes connections in any order over a
system that gives and refuses what it likes. At every time the process holds the descriptors, the
address lists and the blocks of its open connections, once, and of nothing else that was taken on
their behalf, and has released no memory that was not its own, exactly if every step is clean. So it
is with a client that connects over UDP and into free variables only, if descriptor 0 stays open. -/
theorem connections_accounted (choice : ℕ → Choice) (ledger : Ledger c) (ops : List (ClientOp ι)) :
    ((∀ n, Ledger (c.run choice (ops.take n))) ↔ c.Each Client.CleanStep choice ops) ∧
    (c.Direct → c.Each Client.DirectStep choice ops → ∀ n, Ledger (c.run choice (ops.take n))) :=
  ⟨ledger.run_iff ops, fun direct steps => (ledger.run_iff ops).mpr (direct.run ledger steps)⟩

end Client

/-! ## A client that connects over UDP and one that connects over TCP -/

/-- A process with its three standard descriptors. -/
def standard : Held := ⟨{0, 1, 2}, 0, 0, false⟩

/-- It has not connected yet. -/
def started : Client Unit := ⟨fun _ => none, standard, 0, standard⟩

/-- Descriptors and pointers that count up from 3, and blocks that are full of twos. -/
def counting (n : ℕ) : Choice := ⟨n + 3, n + 3, ⟨2, 2, true, 2⟩⟩

theorem started_ledger : Ledger started where
  held := rfl
  sound := ⟨by decide, by decide, by decide, by decide⟩
  faultless := rfl

/-- Over UDP the accounts are kept. Over TCP, `eb_disconnect` closes `stderr` here. -/
theorem connections_accounted_once :
    (∀ n, Ledger (started.run counting
      ([.connect () "127.0.0.1" "1234" true, .disconnect ()].take n))) ∧
    ¬ ∀ n, Ledger (started.run counting
      ([.connect () "127.0.0.1" "1234" false, .disconnect ()].take n)) := by
  constructor
  · have direct : started.Direct := ⟨by decide, fun i h some => by cases some⟩
    exact (connections_accounted counting started_ledger _).2 direct
      ⟨⟨rfl, rfl⟩, trivial, trivial⟩
  · intro all
    obtain ⟨-, clean, -⟩ := (connections_accounted counting started_ledger _).1.mp all
    have closes : ¬ Handle.Clean ⟨3, ⟨5, 2, false, 4⟩⟩ standard := by decide
    exact closes (clean _ rfl)

end Connections

end Remote

end Rockling
