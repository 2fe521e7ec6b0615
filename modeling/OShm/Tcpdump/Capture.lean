import Mathlib.Algebra.Group.Nat.Defs
import OShm.Kernel.Task
import OShm.Lib.CBuffer

/-! # Capturing packets into a buffer

`custom_tcpdump_capture` puts the packets of `pcap_loop` one behind the other into the
buffer of its caller, and skips those that no longer fit. It hands back neither how many
there were nor where they end.
-/

namespace OShm.Tcpdump

open OShm.Kernel OShm.Lib.CBuffer

abbrev Bytes := List UInt8

abbrev SizeT := BitVec 64

/-- The captured bytes of a packet with the `caplen` of its header. -/
structure Packet where
  caplen : BitVec 32
  data : Bytes
  length_eq : data.length = caplen.toNat

/-- `capture_buffer_t`, with the bytes behind the pointer. -/
structure CaptureBuffer where
  buffer : Bytes
  bufferSize : SizeT
  bytesWritten : SizeT

/-- `default_packet_handler`. No result stands for a copy that leaves the buffer. -/
def defaultPacketHandler (c : CaptureBuffer) (p : Packet) : Option CaptureBuffer :=
  if c.bytesWritten + p.caplen.setWidth 64 > c.bufferSize then some c
  else do
    let buffer ← memcpy c.buffer c.bytesWritten.toNat p.data
    return { c with buffer, bytesWritten := c.bytesWritten + p.caplen.setWidth 64 }

/-! ## What the buffer holds -/

def accepted (room : Nat) : List Packet → List Packet
  | [] => []
  | p :: ps =>
      if p.data.length ≤ room then p :: accepted (room - p.data.length) ps else accepted room ps

def stored (ps : List Packet) : Bytes := ps.flatMap Packet.data

def holding (buf : Bytes) (size : SizeT) (ps : List Packet) : CaptureBuffer where
  buffer := stored ps ++ buf.drop (stored ps).length
  bufferSize := size
  bytesWritten := BitVec.ofNat 64 (stored ps).length

@[simp] theorem stored_nil : stored [] = [] := rfl

theorem stored_append (ps qs : List Packet) : stored (ps ++ qs) = stored ps ++ stored qs :=
  List.flatMap_append

theorem stored_snoc (ps : List Packet) (p : Packet) :
    stored (ps ++ [p]) = stored ps ++ p.data := by
  simp [stored]

/-! ## One packet -/

section Handler

variable {buf : Bytes} {size : SizeT} {ps : List Packet} {p : Packet}

theorem bytesWritten_holding (buf : Bytes) (hfit : (stored ps).length ≤ size.toNat) :
    (holding buf size ps).bytesWritten.toNat = (stored ps).length := by
  have hlt := size.isLt
  rw [holding, BitVec.toNat_ofNat, Nat.mod_eq_of_lt (by omega)]

/-- The sum that the handler compares with the size, where it does not wrap. -/
theorem toNat_sum (buf : Bytes) (p : Packet) (hfit : (stored ps).length ≤ size.toNat)
    (hsum : (stored ps).length + p.data.length < 2 ^ 64) :
    ((holding buf size ps).bytesWritten + p.caplen.setWidth 64).toNat =
      (stored ps).length + p.data.length := by
  have hcap := p.caplen.isLt
  have hlen := p.length_eq
  rw [BitVec.toNat_add, bytesWritten_holding buf hfit, BitVec.toNat_setWidth]
  omega

/-- A size below 2^63 leaves room for the sum, so that it is compared as it is. -/
theorem handler_rejects (hsize : size.toNat < 2 ^ 63) (hfit : (stored ps).length ≤ size.toNat)
    (h : size.toNat < (stored ps).length + p.data.length) :
    defaultPacketHandler (holding buf size ps) p = some (holding buf size ps) := by
  have hcap := p.caplen.isLt
  have hlen := p.length_eq
  have hsum := toNat_sum buf p hfit (by omega)
  rw [defaultPacketHandler, if_pos]
  rw [gt_iff_lt, BitVec.lt_def, hsum]
  exact h

theorem handler_accepts (hlen : buf.length = size.toNat)
    (h : (stored ps).length + p.data.length ≤ size.toNat) :
    defaultPacketHandler (holding buf size ps) p = some (holding buf size (ps ++ [p])) := by
  have hlt := size.isLt
  have hfit : (stored ps).length ≤ size.toNat := by omega
  have hsum := toNat_sum buf p hfit (by omega)
  have hroom : (stored ps).length + p.data.length ≤
      (stored ps ++ buf.drop (stored ps).length).length := by
    simp only [List.length_append, List.length_drop]
    omega
  have hnext : (holding buf size ps).bytesWritten + p.caplen.setWidth 64 =
      (holding buf size (ps ++ [p])).bytesWritten := by
    apply BitVec.eq_of_toNat_eq
    rw [hsum, bytesWritten_holding buf (by simpa [stored_snoc] using h), stored_snoc,
      List.length_append]
  have hcopy : memcpy (holding buf size ps).buffer (stored ps).length p.data =
      some (holding buf size (ps ++ [p])).buffer := by
    simp only [holding, stored_snoc, memcpy_fits hroom, List.take_left, List.length_append]
    rw [List.drop_append, List.drop_of_length_le (by omega), List.nil_append, List.drop_drop]
    congr 3
    omega
  rw [defaultPacketHandler, if_neg]
  · rw [bytesWritten_holding buf hfit, hcopy, hnext]
    rfl
  · rw [gt_iff_lt, BitVec.lt_def, hsum]
    exact Nat.not_lt.mpr h

end Handler

/-! ## Sequences of packets -/

def deliver (c : CaptureBuffer) (ps : List Packet) : Option CaptureBuffer :=
  ps.foldlM defaultPacketHandler c

theorem deliver_holding {buf : Bytes} {size : SizeT} (hlen : buf.length = size.toNat)
    (hsize : size.toNat < 2 ^ 63) {ps : List Packet} (hfit : (stored ps).length ≤ size.toNat)
    (qs : List Packet) :
    deliver (holding buf size ps) qs =
      some (holding buf size (ps ++ accepted (size.toNat - (stored ps).length) qs)) := by
  induction qs generalizing ps with
  | nil => simp [deliver, accepted]
  | cons q qs ih =>
      simp only [deliver] at ih
      rw [deliver, List.foldlM_cons, accepted]
      by_cases hq : q.data.length ≤ size.toNat - (stored ps).length
      · have hfit' : (stored (ps ++ [q])).length ≤ size.toNat := by
          rw [stored_snoc, List.length_append]
          omega
        have hroom : size.toNat - (stored (ps ++ [q])).length =
            size.toNat - (stored ps).length - q.data.length := by
          rw [stored_snoc, List.length_append]
          omega
        rw [handler_accepts hlen (by omega), if_pos hq]
        show (qs.foldlM defaultPacketHandler (holding buf size (ps ++ [q]))) = _
        rw [ih hfit', hroom, List.append_assoc, List.singleton_append]
      · rw [handler_rejects hsize hfit (by omega), if_neg hq]
        exact ih hfit

theorem deliver_of_fits {buf : Bytes} {size : SizeT} (hlen : buf.length = size.toNat)
    (ps : List Packet) {qs : List Packet} (hfit : (stored (ps ++ qs)).length ≤ size.toNat) :
    deliver (holding buf size ps) qs = some (holding buf size (ps ++ qs)) := by
  induction qs generalizing ps with
  | nil => simp [deliver]
  | cons q qs ih =>
      have hsplit : ps ++ q :: qs = ps ++ [q] ++ qs := by simp
      rw [hsplit] at hfit ⊢
      have hq : (stored ps).length + q.data.length ≤ size.toNat := by
        rw [stored_append, stored_snoc, List.length_append, List.length_append] at hfit
        omega
      rw [deliver, List.foldlM_cons, handler_accepts hlen hq]
      exact ih (ps ++ [q]) hfit

theorem stored_accepted_le (room : Nat) (ps : List Packet) :
    (stored (accepted room ps)).length ≤ room := by
  induction ps generalizing room with
  | nil => simp [accepted]
  | cons p ps ih =>
      rw [accepted]
      split
      · next h =>
          have htail := ih (room - p.data.length)
          simp only [stored, List.flatMap_cons, List.length_append] at htail ⊢
          omega
      · exact ih room

/-- After any packets the buffer holds the accepted ones in order, and the rest of it is as
it was. No copy leaves it. -/
theorem packet_buffer_invariant {buf : Bytes} {size : SizeT} (hlen : buf.length = size.toNat)
    (hsize : size.toNat < 2 ^ 63) (ps : List Packet) :
    ∃ c, deliver ⟨buf, size, 0⟩ ps = some c ∧
      c.bytesWritten.toNat ≤ size.toNat ∧
      c.bytesWritten.toNat = (stored (accepted size.toNat ps)).length ∧
      c.buffer.take c.bytesWritten.toNat = stored (accepted size.toNat ps) ∧
      c.buffer.drop c.bytesWritten.toNat = buf.drop c.bytesWritten.toNat := by
  have hrun := @deliver_holding buf size hlen hsize [] (Nat.zero_le _) ps
  have hle := stored_accepted_le size.toNat ps
  have hwritten := bytesWritten_holding buf hle
  refine ⟨_, hrun, ?_⟩
  simp only [List.nil_append, stored_nil, List.length_nil, Nat.sub_zero, hwritten]
  exact ⟨hle, trivial, List.take_left, List.drop_left⟩

theorem packet_buffer_invariant_four :
    ∃ c, deliver ⟨[7, 7, 7, 7], 4, 0⟩
        [⟨1, [1], rfl⟩, ⟨4, [2, 2, 2, 2], rfl⟩, ⟨3, [3, 3, 3], rfl⟩, ⟨0, [], rfl⟩] = some c ∧
      c.bytesWritten.toNat = 4 ∧ c.buffer.take 4 = [1, 3, 3, 3] := by
  obtain ⟨c, hrun, -, hwritten, htake, -⟩ :=
    @packet_buffer_invariant [7, 7, 7, 7] 4 rfl (by decide)
      [⟨1, [1], rfl⟩, ⟨4, [2, 2, 2, 2], rfl⟩, ⟨3, [3, 3, 3], rfl⟩, ⟨0, [], rfl⟩]
  have hfour : c.bytesWritten.toNat = 4 := hwritten
  rw [hfour] at htake
  exact ⟨c, hrun, hfour, htake⟩

/-! ## The capture -/

structure Pcap where
  /-- Whether `pcap_open_live` gives a handle. -/
  openLive : Bool
  compile : Bool
  setfilter : Bool
  /-- The packets on the interface that pass the filter. -/
  packets : List Packet
  /-- The result of `pcap_loop`. -/
  loop : Int

def enodev : Errno := 19

def hasFilter (customFilter : Option Bytes) : Bool :=
  match customFilter with
  | none => false
  | some f => !f.isEmpty

/-- `pcap_loop` stops after `packetCount` packets unless that is 0 or less. -/
def Pcap.delivered (E : Pcap) (packetCount : Int) : List Packet :=
  if 0 < packetCount then E.packets.take packetCount.toNat else E.packets

/-- `custom_tcpdump_capture_with_handler`; `none` for a pointer stands for `NULL`. -/
def customTcpdumpCaptureWithHandler {σ : Type} (E : Pcap) (iface customFilter : Option Bytes)
    (handler : Option (σ → Packet → Option σ)) (userData : σ) (packetCount : Int) :
    Option (σ × Int) :=
  match iface, handler with
  | some _, some handle =>
      if E.openLive = false then some (userData, -(enodev : Int))
      else if hasFilter customFilter && !E.compile then some (userData, -(einval : Int))
      else if hasFilter customFilter && !E.setfilter then some (userData, -(einval : Int))
      else do
        let userData ← (E.delivered packetCount).foldlM handle userData
        return (userData, if E.loop = -1 then -(eio : Int) else 0)
  | _, _ => some (userData, -(einval : Int))

/-- `custom_tcpdump_capture`: the buffer and the value returned. -/
def customTcpdumpCapture (E : Pcap) (iface customFilter buffer : Option Bytes)
    (bufferSize : SizeT) : Option (Option Bytes × Int) :=
  match iface, buffer with
  | some name, some buf =>
      if bufferSize = 0 then some (buffer, -(einval : Int))
      else do
        let (c, ret) ← customTcpdumpCaptureWithHandler E (some name) customFilter
          (some defaultPacketHandler) ⟨buf, bufferSize, 0⟩ 10
        return (some c.buffer, ret)
  | _, _ => some (buffer, -(einval : Int))

/-! ## What the caller learns -/

section Caller

variable (iface : Bytes) (customFilter : Option Bytes) (size : SizeT)

/-- At most ten packets, none of them empty, that fit in the buffer. -/
structure Fits (ps : List Packet) : Prop where
  count : ps.length ≤ 10
  nonempty : ∀ p ∈ ps, p.data ≠ []
  room : (stored ps).length ≤ size.toNat

/-- What the caller of a capture without errors has in the end, who filled the buffer with
zeros before. -/
def captured (ps : List Packet) : Option (Option Bytes × Int) :=
  customTcpdumpCapture ⟨true, true, true, ps, 0⟩ (some iface) customFilter
    (some (List.replicate size.toNat 0)) size

/-- The packets can be told from what the caller has. -/
def Recoverable : Prop :=
  ∃ decode : Option Bytes × Int → List Packet, ∀ ps, Fits size ps →
    (captured iface customFilter size ps).map decode = some ps

variable {size}

theorem captureWithHandler_deliver (c : CaptureBuffer) {ps : List Packet}
    (hcount : ps.length ≤ 10) :
    customTcpdumpCaptureWithHandler ⟨true, true, true, ps, 0⟩ (some iface) customFilter
      (some defaultPacketHandler) c 10 = (deliver c ps).map fun c => (c, 0) := by
  have htake : ps.take 10 = ps := List.take_of_length_le hcount
  have hloop : Pcap.delivered ⟨true, true, true, ps, 0⟩ 10 = ps := htake
  simp only [customTcpdumpCaptureWithHandler, Bool.true_eq_false, if_false, Bool.not_true,
    Bool.and_false, hloop, deliver]
  cases ps.foldlM defaultPacketHandler c <;> rfl

theorem captured_eq (hpos : size ≠ 0) {ps : List Packet} (hcount : ps.length ≤ 10) :
    captured iface customFilter size ps =
      (deliver ⟨List.replicate size.toNat 0, size, 0⟩ ps).map fun c => (some c.buffer, 0) := by
  simp only [captured, customTcpdumpCapture, if_neg hpos]
  rw [captureWithHandler_deliver iface customFilter _ hcount]
  cases deliver ⟨List.replicate size.toNat 0, size, 0⟩ ps <;> rfl

theorem captured_of_fits (hpos : size ≠ 0) {ps : List Packet} (h : Fits size ps) :
    captured iface customFilter size ps =
      some (some (stored ps ++ List.replicate (size.toNat - (stored ps).length) 0), 0) := by
  have hrun := @deliver_of_fits (List.replicate size.toNat 0) size List.length_replicate [] ps
    h.room
  rw [captured_eq iface customFilter hpos h.count]
  show (deliver (holding (List.replicate size.toNat 0) size []) ps).map _ = _
  rw [hrun]
  simp [holding]

/-- Packets are confused with others exactly when their bytes agree up to zeros. -/
theorem captured_eq_iff (hpos : size ≠ 0) {ps qs : List Packet} (hps : Fits size ps)
    (hqs : Fits size qs) :
    captured iface customFilter size ps = captured iface customFilter size qs ↔
      stored ps ++ List.replicate (size.toNat - (stored ps).length) 0 =
        stored qs ++ List.replicate (size.toNat - (stored qs).length) 0 := by
  rw [captured_of_fits iface customFilter hpos hps, captured_of_fits iface customFilter hpos hqs]
  simp only [Option.some.injEq, Prod.mk.injEq, and_true]

theorem fits_nil : Fits size [] := ⟨by decide, by simp, Nat.zero_le _⟩

/-- The packets can be recovered only from a buffer of size 0, in which none fits and which
the call refuses. -/
theorem recoverable_iff (size : SizeT) : Recoverable iface customFilter size ↔ size = 0 := by
  constructor
  · rintro ⟨decode, h⟩
    by_contra hpos
    have hroom : 1 ≤ size.toNat := by
      have hne : size.toNat ≠ 0 := fun hzero => hpos (BitVec.eq_of_toNat_eq hzero)
      omega
    -- a zero byte looks like one that was never written
    have hfits : Fits size [⟨1, [0], rfl⟩] := ⟨by decide, by simp, hroom⟩
    have hsame := (captured_eq_iff iface customFilter hpos hfits fits_nil).mpr (by
      obtain ⟨n, hn⟩ := Nat.exists_eq_add_of_le' hroom
      simp [stored, hn, List.replicate_succ])
    have hzero := h _ hfits
    rw [hsame, h [] fits_nil] at hzero
    cases hzero
  · rintro rfl
    refine ⟨fun _ => [], fun ps h => ?_⟩
    have hnil : ps = [] := by
      cases ps with
      | nil => rfl
      | cons p ps =>
          have hp := List.length_pos_iff.mpr (h.nonempty p (by simp))
          have hroom : p.data.length + (stored ps).length ≤ 0 := by
            simpa [stored] using h.room
          omega
    rw [hnil]
    rfl

end Caller

/-- Two packets of one byte and one packet of two bytes are the same to the caller. -/
theorem packet_bounds_lost :
    Fits 2 [⟨1, [1], rfl⟩, ⟨1, [2], rfl⟩] ∧ Fits 2 [⟨2, [1, 2], rfl⟩] ∧
      captured [] none 2 [⟨1, [1], rfl⟩, ⟨1, [2], rfl⟩] = some (some [1, 2], 0) ∧
      captured [] none 2 [⟨2, [1, 2], rfl⟩] = some (some [1, 2], 0) :=
  ⟨⟨by decide, by simp, by decide⟩, ⟨by decide, by simp, by decide⟩, by decide, by decide⟩

end OShm.Tcpdump
