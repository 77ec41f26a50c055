import Rockling.Remote.Board

/-!
# Every board has a peer

`Serves` asks of a peer that it handles the requests on a board and answers each read. For every
board and every program there is one (`peer_serves`): it keeps the requests, and answers a read with
all that it still owes.
-/

namespace Rockling

namespace Remote

variable {α σ : Type}

/-- A client and its peer: the requests sent and the bytes received so far. -/
structure Link (α : Type) where
  client : Client α
  sent : List Packet
  got : List Byte

namespace Link

variable (host : Endian) (b : Board σ) (s : σ)

/-- The bytes of the answers to the requests sent so far. -/
def owed (x : Link α) : List Byte := replies response (b.serve x.sent s).1

/-- What the peer replies: it takes a request, and sends all that it owes. -/
def reply (x : Link α) : Replies SockIface
  | .send _ => .ok 20
  | .recv maxLen =>
    .got (((x.owed b s).drop x.got.length).take maxLen) (List.length_take_le _ _)

/-- One call. -/
def step (x : Link α) : Link α where
  client := (Remote.client (tcp host)).step x.client (x.reply b s)
  sent := x.sent ++ sentIn (tcp host) x.client
  got := x.got ++ receivedIn (tcp host) x.client (x.reply b s)

/-- A program is about to start. -/
def start (prog : Prog BusIface α) : Link α := ⟨.start prog, [], []⟩

/-- The bytes received are the first ones owed: all of them, or all but the answer that the client
is waiting for. -/
structure Sound (x : Link α) : Prop where
  front : x.got <+: x.owed b s
  rest : match x.client.rx with
    | none => x.got.length = (x.owed b s).length
    | some (_, p) => p = 0 ∧ x.got.length + 20 = (x.owed b s).length ∧
      ∃ addr, Reading x.client.prog addr

variable {host b s}

/-- A call that sends a request: `vals` are the values it asks for. -/
theorem Sound.send {x : Link α} (sound : x.Sound b s) (acc : Access) {c : Client α}
    (idle : x.client.rx = none)
    (next : Client.next (tcp host) x.client = .call (.send (acc.request host)) fun _ => c)
    (rest : match c.rx with
      | none => (b.access acc (b.serve x.sent s).2).1.length = 0
      | some (_, p) => p = 0 ∧ (b.access acc (b.serve x.sent s).2).1.length = 1 ∧
        ∃ addr, Reading c.prog addr) : (x.step host b s).Sound b s := by
  have owed : (x.step host b s).owed b s = x.owed b s ++
      replies response (b.access acc (b.serve x.sent s).2).1 := by
    have sent : (x.step host b s).sent = x.sent ++ [acc.request host] := by
      rw [step, sentIn, next]
    rw [Link.owed, sent, serve_request, replies, List.flatMap_append]
    rfl
  have got : (x.step host b s).got = x.got := by
    rw [step, receivedIn, next]
    exact List.append_nil _
  have client : (x.step host b s).client = c := by
    have call : (Remote.client (tcp host)).next x.client = _ := next
    exact Process.step_call call _
  have all := sound.rest
  rw [idle] at all
  constructor
  · rw [got, owed]
    exact sound.front.trans (List.prefix_append _ _)
  · rw [got, owed, client, List.length_append, length_replies, all]
    split
    · next rx =>
      rw [rx] at rest
      dsimp only at rest
      rw [rest, Nat.mul_zero, Nat.add_zero]
    · next rx =>
      rw [rx] at rest
      obtain ⟨first, one, reading⟩ := rest
      exact ⟨first, by rw [one], reading⟩

/-- A receive brings the rest of the answer. -/
theorem Sound.receive {x : Link α} (sound : x.Sound b s) {prog : Prog BusIface α} {rawPkt : Packet}
    {p : Fin 20} (busy : x.client = ⟨prog, some (rawPkt, p)⟩) : (x.step host b s).Sound b s := by
  have all := sound.rest
  rw [busy] at all
  obtain ⟨rfl, lacks, addr, reading⟩ := all
  have next : Client.next (tcp host) x.client = _ := busy ▸ reading.next_recv
  have brings : ((x.owed b s).drop x.got.length).take 20 = (x.owed b s).drop x.got.length :=
    List.take_of_length_le (by rw [List.length_drop]; omega)
  have got : (x.step host b s).got = x.owed b s := by
    have bytes : (x.step host b s).got =
        x.got ++ ((x.owed b s).drop x.got.length).take 20 := by
      rw [step, receivedIn, next]
      rfl
    rw [bytes, brings]
    obtain ⟨later, whole⟩ := sound.front
    rw [← whole, List.drop_left]
  have owed : (x.step host b s).owed b s = x.owed b s := by
    have sent : (x.step host b s).sent = x.sent := by
      rw [step, sentIn, next]
      exact List.append_nil _
    rw [Link.owed, sent]
    rfl
  have client : ∃ v, (x.step host b s).client = ⟨answer prog v, none⟩ := by
    have call : (Remote.client (tcp host)).next x.client = _ := next
    have after := Process.step_call call (x.reply b s)
    have enough :
        ¬ ((0 : Fin 20) : ℕ) + (((x.owed b s).drop x.got.length).take 20).length < 20 := by
      rw [brings, List.length_drop]
      omega
    obtain ⟨v, value⟩ : ∃ v, recvStream host rawPkt 0
        (x.reply b s (.recv (20 - ((0 : Fin 20) : ℕ)))) = .inr v := ⟨_, dif_neg enough⟩
    refine ⟨v, after.trans ?_⟩
    rw [value, busy]
    rfl
  obtain ⟨v, client⟩ := client
  constructor
  · rw [got, owed]
  · rw [got, owed, client]

/-- **One call** keeps the peer in step. -/
theorem Sound.step {x : Link α} (sound : x.Sound b s) : (x.step host b s).Sound b s := by
  obtain ⟨⟨prog, rx⟩, sent, got⟩ := x
  cases rx with
  | some rx => exact sound.receive rfl
  | none =>
    cases prog with
    | ret a =>
      have same : Link.step host b s ⟨⟨.ret a, none⟩, sent, got⟩ = ⟨⟨.ret a, none⟩, sent, got⟩ := by
        change Link.mk _ (sent ++ []) (got ++ []) = _
        rw [List.append_nil, List.append_nil]
        rfl
      rw [same]
      exact sound
    | call o k =>
      cases o with
      | write val addr => exact sound.send (.write val addr) rfl rfl rfl
      | read addr =>
        have reading : Reading (.call (S := BusIface) (.read addr) k) addr := reading_read k
        exact sound.send (.read addr) rfl reading.next_send ⟨rfl, rfl, addr, reading⟩
      | readWhile addr busy =>
        have reading : Reading (.call (S := BusIface) (.readWhile addr busy) k) addr :=
          reading_readWhile busy k
        exact sound.send (.read addr) rfl reading.next_send ⟨rfl, rfl, addr, reading⟩

theorem start_sound (prog : Prog BusIface α) : (start prog).Sound b s :=
  ⟨List.prefix_rfl, rfl⟩

end Link

/-- Between two accesses a client does not receive. -/
theorem not_recv_of_idle {conn : Conn} {maxLen : ℕ} {k : Received maxLen → Client α}
    (prog : Prog BusIface α) : Client.next conn ⟨prog, none⟩ ≠ .call (.recv maxLen) k := by
  intro next
  cases prog with
  | ret a => cases next
  | call o k => cases o <;> cases next

section Peer

variable (host : Endian) (b : Board σ) (s : σ) (prog : Prog BusIface α)

/-- The client and its peer after `n` calls. -/
def linkAt (n : ℕ) : Link α := (Link.step host b s)^[n] (.start prog)

/-- The replies of the peer. -/
def peer (n : ℕ) : Replies SockIface := (linkAt host b s prog n).reply b s

theorem linkAt_sound (n : ℕ) : (linkAt host b s prog n).Sound b s := by
  induction n with
  | zero => exact Link.start_sound prog
  | succ n ih =>
    rw [linkAt, Function.iterate_succ_apply']
    exact ih.step

/-- The run of the client with the peer. -/
theorem linkAt_run (n : ℕ) :
    let r := (client (tcp host)).exec (.start prog) (peer host b s prog)
    r.st n = (linkAt host b s prog n).client ∧ sent r n = (linkAt host b s prog n).sent ∧
      received r n = (linkAt host b s prog n).got := by
  intro r
  induction n with
  | zero => exact ⟨rfl, rfl, rfl⟩
  | succ n ih =>
    obtain ⟨st, sent, got⟩ := ih
    have inp : r.inp n = (linkAt host b s prog n).reply b s := rfl
    rw [linkAt, Function.iterate_succ_apply', ← linkAt]
    refine ⟨?_, ?_, ?_⟩
    · rw [r.next, st, inp]
      rfl
    · rw [Remote.sent, sent, st]
      rfl
    · rw [received, got, st, inp]
      rfl

/-- **Every board has a peer** for every program. -/
theorem peer_serves : Serves b s response ((client (tcp host)).exec (.start prog)
    (peer host b s prog)) where
  takes _ _ := rfl
  ends := response_ends
  inOrder := by
    intro n maxLen k next
    obtain ⟨st, sent, got⟩ := linkAt_run host b s prog n
    obtain ⟨front, rest⟩ := linkAt_sound host b s prog n
    rw [st] at next
    rw [got, sent]
    have inp : ((client (tcp host)).exec (.start prog) (peer host b s prog)).inp n =
      (linkAt host b s prog n).reply b s := rfl
    rw [inp]
    generalize linkAt host b s prog n = x at *
    obtain ⟨⟨prog', rx⟩, pkts, bytes⟩ := x
    cases rx with
    | none => exact absurd next (not_recv_of_idle prog')
    | some rx =>
      obtain ⟨rawPkt, p⟩ := rx
      obtain ⟨rfl, lacks, addr, reading⟩ := rest
      rw [reading.next_recv] at next
      cases next
      let owed := replies response (b.serve pkts s).1
      have lacks : bytes.length + 20 = owed.length := lacks
      obtain ⟨later, whole⟩ : bytes <+: owed := front
      have rest : owed.drop bytes.length = later := by rw [← whole, List.drop_left]
      have length : later.length = 20 := by
        rw [← rest, List.length_drop]
        omega
      have brings : (owed.drop bytes.length).take 20 = later := by
        rw [rest]
        exact List.take_of_length_le length.le
      refine Or.inr ⟨?_, ?_⟩
      · change 0 < ((owed.drop bytes.length).take 20).length
        rw [brings, length]
        decide
      · change bytes ++ (owed.drop bytes.length).take 20 <+: owed
        rw [brings, whole]
  resumes := by
    intro n
    refine ⟨n, le_rfl, ?_⟩
    rintro ⟨maxLen, k, -, retry⟩
    cases retry

end Peer

end Remote

end Rockling
