import Rockling.Remote.Etherbone

/-!
# Requests and responses

A reader for the packets of `eb_fill_readwrite32`, written from the comments there: a header with
the magic number, the version and the widths, a record with one write or one read of a full word,
and the words of the record, big-endian. It gives back what was put in, so no two accesses share a
packet (`request_understood`).
-/

namespace Rockling

namespace Remote

/-- What a request asks for. -/
inductive Access where
  | write (val addr : BitVec 32)
  | read (addr : BitVec 32)
  deriving DecidableEq, Repr

/-- The packet that `eb_write32` or `eb_read32` sends for an access. -/
def Access.request (host : Endian) : Access → Packet
  | .write val addr => ebFillWrite32 host val addr
  | .read addr => ebFillRead32 host addr

/-- The byte at an offset of a packet. -/
def Packet.byte (pkt : Packet) (i : ℕ) : Byte := if h : i < 20 then pkt ⟨i, h⟩ else 0

/-- The big-endian word at an offset of a packet. -/
def Packet.word (pkt : Packet) (i : ℕ) : BitVec 32 :=
  bigEndian (pkt.byte i) (pkt.byte (i + 1)) (pkt.byte (i + 2)) (pkt.byte (i + 3))

/-- The packet starts like a request: magic number, version 1 without flags, 32-bit addresses and
ports, padding, and a record without Wishbone flags whose byte enable selects the full word. -/
def Packet.IsRecord (pkt : Packet) : Prop :=
  pkt.byte 0 = 0x4e ∧ pkt.byte 1 = 0x6f ∧ pkt.byte 2 = 0x10 ∧ pkt.byte 3 = 0x44 ∧
    pkt.word 4 = 0 ∧ pkt.byte 8 = 0x00 ∧ pkt.byte 9 = 0x0f

instance (pkt : Packet) : Decidable pkt.IsRecord := inferInstanceAs (Decidable (_ ∧ _))

/-- What a packet asks for. -/
def decode (pkt : Packet) : Option Access :=
  if pkt.IsRecord then
    if pkt.byte 10 = 1 ∧ pkt.byte 11 = 0 then some (.write (pkt.word 16) (pkt.word 12))
    else if pkt.byte 10 = 0 ∧ pkt.byte 11 = 1 then some (.read (pkt.word 16))
    else none
  else none

/-- The bytes of a word spell it. -/
theorem bigEndian_extract (v : BitVec 32) : bigEndian (v.extractLsb' 24 8) (v.extractLsb' 16 8)
    (v.extractLsb' 8 8) (v.extractLsb' 0 8) = v := by
  ext i hi
  simp only [bigEndian]
  grind

section

variable {pkt : Packet} {offset : ℕ}

theorem byte_memcpy_before {src : List Byte} {i : ℕ} (h : i < offset) :
    Packet.byte (memcpy pkt offset src) i = pkt.byte i := by
  unfold Packet.byte
  split
  · exact memcpy_before h
  · rfl

theorem byte_memcpy_inside {src : List Byte} {k : ℕ} (hk : k < src.length)
    (room : offset + k < 20) : Packet.byte (memcpy pkt offset src) (offset + k) = src[k] := by
  rw [Packet.byte, dif_pos room]
  exact memcpy_inside hk rfl

/-- A word written at an offset in network order is read back. -/
theorem word_memcpy (host : Endian) (v : BitVec 32) (room : offset + 3 < 20) :
    Packet.word (memcpy pkt offset (host.store (host.htobe32 v))) offset = v := by
  have len : (Endian.big.store v).length = 4 := rfl
  have byte (k : ℕ) (hk : k < (Endian.big.store v).length) :
      Packet.byte (memcpy pkt offset (Endian.big.store v)) (offset + k) =
        (Endian.big.store v)[k] :=
    byte_memcpy_inside hk (by omega)
  have first : Packet.byte (memcpy pkt offset (Endian.big.store v)) offset = _ :=
    byte 0 (by omega)
  have second := byte 1 (by omega)
  have third := byte 2 (by omega)
  have fourth := byte 3 (by omega)
  rw [store_htobe32, Packet.word, first, second, third, fourth]
  exact bigEndian_extract v

/-- A word further on does not touch the bytes before it. -/
theorem word_memcpy_before {src : List Byte} {i : ℕ} (hi : i + 3 < offset) :
    Packet.word (memcpy pkt offset src) i = pkt.word i := by
  unfold Packet.word
  rw [byte_memcpy_before (by omega), byte_memcpy_before (by omega),
    byte_memcpy_before (by omega), byte_memcpy_before hi]

/-- The ten bytes of the header decide whether a packet is a record. -/
theorem Packet.IsRecord.congr {pkt' : Packet} (same : ∀ i < 10, pkt'.byte i = pkt.byte i)
    (h : pkt.IsRecord) : pkt'.IsRecord := by
  unfold IsRecord word
  rw [same 0 (by decide), same 1 (by decide), same 2 (by decide), same 3 (by decide),
    same 4 (by decide), same 5 (by decide), same 6 (by decide), same 7 (by decide),
    same 8 (by decide), same 9 (by decide)]
  exact h

theorem header_isRecord : header.IsRecord := by decide

/-- The counts of writes and reads lie behind the header. -/
theorem counts_memcpy (writes reads : Byte) :
    Packet.IsRecord (memcpy header 10 [writes, reads]) ∧
      Packet.byte (memcpy header 10 [writes, reads]) 10 = writes ∧
      Packet.byte (memcpy header 10 [writes, reads]) 11 = reads :=
  ⟨header_isRecord.congr fun _ hi => byte_memcpy_before hi, rfl, rfl⟩

/-- What is written behind the counts leaves the header and the counts alone. -/
theorem counts_memcpy_before (src : List Byte) (behind : 12 ≤ offset) (h : pkt.IsRecord) :
    Packet.IsRecord (memcpy pkt offset src) ∧
      Packet.byte (memcpy pkt offset src) 10 = pkt.byte 10 ∧
      Packet.byte (memcpy pkt offset src) 11 = pkt.byte 11 := by
  refine ⟨h.congr fun i hi => ?_, byte_memcpy_before (by omega), byte_memcpy_before (by omega)⟩
  exact byte_memcpy_before (by omega)

end

/-- Whatever the byte order of the host, the packet of an access decodes to that access. -/
theorem decode_request (host : Endian) (acc : Access) : decode (acc.request host) = some acc := by
  cases acc with
  | read addr =>
    let pkt : Packet := memcpy header 10 [0, 1]
    obtain ⟨record, writes, reads⟩ := counts_memcpy 0 1
    obtain ⟨record', writes', reads'⟩ :=
      counts_memcpy_before (host.store (host.htobe32 addr)) (show 12 ≤ 16 by decide) record
    have hword : Packet.word (memcpy pkt 16 (host.store (host.htobe32 addr))) 16 = addr :=
      word_memcpy host addr (by decide)
    change decode (memcpy pkt 16 (host.store (host.htobe32 addr))) = _
    rw [decode, if_pos record', writes', reads', writes, reads]
    exact congrArg (some ∘ Access.read) hword
  | write val addr =>
    let pkt : Packet := memcpy header 10 [1, 0]
    let pkt' : Packet := memcpy pkt 12 (host.store (host.htobe32 addr))
    obtain ⟨record, writes, reads⟩ := counts_memcpy 1 0
    obtain ⟨record', writes', reads'⟩ :=
      counts_memcpy_before (host.store (host.htobe32 addr)) (show 12 ≤ 12 from le_rfl) record
    obtain ⟨record'', writes'', reads''⟩ :=
      counts_memcpy_before (host.store (host.htobe32 val)) (show 12 ≤ 16 by decide) record'
    have hval : Packet.word (memcpy pkt' 16 (host.store (host.htobe32 val))) 16 = val :=
      word_memcpy host val (by decide)
    have haddr : Packet.word (memcpy pkt' 16 (host.store (host.htobe32 val))) 12 = addr :=
      (word_memcpy_before (by decide)).trans (word_memcpy host addr (by decide))
    change decode (memcpy pkt' 16 (host.store (host.htobe32 val))) = _
    rw [decode, if_pos record'', writes'', reads'', writes', reads', writes, reads]
    exact congrArg some (congrArg₂ Access.write hval haddr)

/-- **Requests are understood.** The packet of an access decodes to that access, and on hosts of any
byte order no other access has the same packet. -/
theorem request_understood (host host' : Endian) (acc acc' : Access) :
    decode (acc.request host) = some acc ∧
      (acc.request host = acc'.request host' ↔ acc = acc') := by
  refine ⟨decode_request host acc, fun same => ?_, ?_⟩
  · have both := congrArg decode same
    rw [decode_request, decode_request] at both
    exact Option.some.inj both
  · rintro rfl
    cases acc with
    | read addr => exact ebFillReadwrite32_host host host' 0 addr true
    | write val addr => exact ebFillReadwrite32_host host host' val addr false

end Remote

end Rockling
