import NioApps.Sanity.Packets

/-! A device that answers at once. `transact_prompt` is the positive side of the
checks in `exchange`: a well-formed successful response is accepted, whatever the
request was. -/

namespace NioApps.Resident

/-- Descriptor 0 and any payload that is empty or starts with version 1, a flag
byte and two zero bytes. -/
structure PayloadOk (p : List Byte) : Prop where
  length : p.length ≤ 154
  version : p ≠ [] → 4 ≤ p.length ∧ p.getD 0 0 = 1 ∧ p.getD 2 0 = 0 ∧ p.getD 3 0 = 0

/-- The response to `command` with payload `p`, but for its checksum byte `s`. -/
def replyWith (s command : Byte) (p : List Byte) : List Byte :=
  [0xfd, command, BitVec.ofNat 8 (p.length + 6), 0, s, 0] ++ p

def replySum (command : Byte) (p : List Byte) : Byte :=
  checksumLoop (fun i => (replyWith 0 command p).getD i 0) (p.length + 6) 0 0

def replyBytes (command : Byte) (p : List Byte) : List Byte := replyWith (replySum command p) command p

/-- The results of the SIO calls of one transaction after another: W succeeds, P
reports the response ready, and R reads it. -/
def prompt (replies : List (List Byte)) (n : ℕ) : SioResult :=
  let r := replies.getD (n / 3) []
  if n % 3 = 0 then ⟨1, fun _ => 0⟩
  else if n % 3 = 1 then ⟨1, fun i => [2, BitVec.ofNat 8 r.length, 0].getD i 0⟩
  else ⟨1, fun i => r.getD i 0⟩

theorem length_replyBytes (command : Byte) (p : List Byte) : (replyBytes command p).length = p.length + 6 := by
  simp [replyBytes, replyWith]

theorem replyWith_getD_add (s command : Byte) (p : List Byte) (i : ℕ) :
    (replyWith s command p).getD (i + 6) 0 = p.getD i 0 := rfl

theorem replyWith_getD_of_ne {i : ℕ} (hi : i ≠ 4) (s t command : Byte) (p : List Byte) :
    (replyWith s command p).getD i 0 = (replyWith t command p).getD i 0 := by
  rcases i with _ | _ | _ | _ | _ | _ | i
  · rfl
  · rfl
  · rfl
  · rfl
  · exact absurd rfl hi
  · rfl
  · rfl

/-- The response as it is read into the packet buffer. -/
structure Arrived (w : Wire) (p : List Byte) : Prop where
  hi : w.wireHi = 0
  len : w.wireLen.toNat = p.length + 6
  packet : ∀ i < p.length + 6, w.packet i = (replyBytes w.command p).getD i 0

theorem Arrived.checksum_eq {w : Wire} {p : List Byte} (h : Arrived w p) : checksum w = w.packet 4 := by
  have hne : w.wireLen ≠ 0 := by
    have := h.len
    bv_omega
  have h4 : w.packet 4 = replySum w.command p := by
    rw [h.packet 4 (by omega)]
    rfl
  rw [checksum, if_neg hne, h.len, h4, replySum]
  refine checksumLoop_congr fun i _ hi h4 => ?_
  rw [h.packet i (by omega)]
  exact replyWith_getD_of_ne h4 _ _ _ _

theorem Arrived.header {w : Wire} {p : List Byte} (h : Arrived w p) (hp : p.length ≤ 154) : headerBad w = false := by
  have h0 : w.packet 0 = 0xfd := (h.packet 0 (by omega)).trans rfl
  have h1 : w.packet 1 = w.command := (h.packet 1 (by omega)).trans rfl
  have h2 : w.packet 2 = w.wireLen := by
    refine (h.packet 2 (by omega)).trans ?_
    change BitVec.ofNat 8 (p.length + 6) = w.wireLen
    rw [← h.len, BitVec.ofNat_toNat, BitVec.setWidth_eq]
  have h3 : w.packet 3 = 0 := (h.packet 3 (by omega)).trans rfl
  have hlen := h.len
  have hshort : ¬w.wireLen < 6 := by bv_omega
  have hlong : w.wireLen < 161 := by bv_omega
  simp only [headerBad, h.hi, h0, h1, h2, h3, h.checksum_eq, hshort, hlong, bne_self_eq_false, decide_false,
    decide_true, Bool.not_true, Bool.or_false]

theorem Arrived.payload {w : Wire} {p : List Byte} (h : Arrived w p) {i : ℕ} (hi : i < p.length) :
    w.packet (i + 6) = p.getD i 0 :=
  (h.packet (i + 6) (by omega)).trans (replyWith_getD_add _ _ p i)

theorem Arrived.replyOf_eq {w : Wire} {p : List Byte} (h : Arrived w p) : replyOf w = replyBytes w.command p := by
  apply List.ext_getElem?
  intro i
  by_cases hi : i < p.length + 6
  · have hi' : i < (replyBytes w.command p).length := by rwa [length_replyBytes]
    rw [replyOf, getElem?_slice _ _ _ _ (by rw [h.len]; exact hi), Nat.zero_add, h.packet i hi,
      List.getD_eq_getElem?_getD, List.getElem?_eq_getElem hi', Option.getD_some]
  · rw [List.getElem?_eq_none (by rw [replyOf, length_slice, h.len]; omega),
      List.getElem?_eq_none (by rw [length_replyBytes]; omega)]

theorem Arrived.replyPayload {w : Wire} {p : List Byte} (h : Arrived w p) (hp : PayloadOk p) :
    (replyPayload 6 w).1 = false := by
  have hlen := h.len
  have hle := hp.length
  simp only [Resident.replyPayload, wireBad, Wire.setPayload_wireLen, Wire.setPayload_payload,
    Wire.setPayloadLen_payloadLen, Wire.setPayloadLen_packet, Wire.setPayload_packet]
  have hshort : ¬w.wireLen < 6 := by bv_omega
  rw [if_neg hshort]
  by_cases hnil : p = []
  · have hzero : w.wireLen - 6 = 0 := by
      rw [hnil, List.length_nil] at hlen
      bv_omega
    rw [if_pos hzero]
  · obtain ⟨h4, hv, h2, h3⟩ := hp.version hnil
    have hzero : w.wireLen - 6 ≠ 0 := by bv_omega
    have hfour : ¬w.wireLen - 6 < 4 := by bv_omega
    have hversion : w.packet 6 = 1 := (h.payload (show 0 < p.length by omega)).trans hv
    have hflags : w.packet 8 ||| w.packet 9 = 0 := by
      rw [h.payload (i := 2) (by omega), h.payload (i := 3) (by omega), h2, h3]
      rfl
    have hy : (6 : Byte).toNat = 6 := rfl
    rw [if_neg hzero, if_neg hfour, hy, if_neg (not_not.2 hversion)]
    exact congrArg Prod.fst (if_neg (not_not.2 hflags))

theorem Arrived.checkReply {w : Wire} {p : List Byte} (h : Arrived w p) (hp : PayloadOk p) :
    (checkReply w).1 = false ∧ payloadOf (replyOf (checkReply w).2) = p := by
  have h5 : w.packet 5 = 0 := (h.packet 5 (by omega)).trans rfl
  obtain ⟨y, n, hsnd⟩ := checkReply_snd w
  refine ⟨?_, ?_⟩
  · rw [Resident.checkReply, h.header hp.length, if_neg (by simp), if_pos h5]
    exact h.replyPayload hp
  · have hsame : replyOf (Resident.checkReply w).2 = replyOf w := by
      rw [hsnd]
      rfl
    rw [hsame, h.replyOf_eq]
    rfl

theorem sio_read_packet {a : Byte} (ha : a ≠ cmdW) (w : Wire) {i : ℕ} (hi : i < w.len) :
    (sio a w).2.packet i = (w.results 0).data i := by
  rw [sio_packet, sioPacket, if_neg ha, if_pos hi]

/-- P reports the response ready and R reads it. -/
theorem receive_prompt {w : Wire} {r : List Byte} (hr : 0 < r.length) (hlen : r.length < 256)
    (h0 : w.results 0 = ⟨1, fun i => [2, BitVec.ofNat 8 r.length, 0].getD i 0⟩)
    (h1 : w.results 1 = ⟨1, fun i => r.getD i 0⟩) :
    (receive w).1 = false ∧ (receive w).2.wireHi = 0 ∧ (receive w).2.wireLen.toNat = r.length ∧
      (receive w).2.command = w.command ∧ ∀ i < r.length, (receive w).2.packet i = r.getD i 0 := by
  have hpoll : (sio cmdP ((w.setLen 3).setHi 0)).1 = true := by
    rw [sio_fst, Wire.setHi_results, Wire.setLen_results, h0]
  have hdata (i : ℕ) (hi : i < 3) :
      (sio cmdP ((w.setLen 3).setHi 0)).2.packet i = [2, BitVec.ofNat 8 r.length, 0].getD i 0 := by
    rw [sio_read_packet (by decide) _ (by exact hi), Wire.setHi_results, Wire.setLen_results, h0]
  have hresults : (sio cmdP ((w.setLen 3).setHi 0)).2.results 0 = ⟨1, fun i => r.getD i 0⟩ := h1
  have hcommand : (sio cmdP ((w.setLen 3).setHi 0)).2.command = w.command := rfl
  have hpacket0 := hdata 0 (by decide)
  have hpacket1 := hdata 1 (by decide)
  have hpacket2 := hdata 2 (by decide)
  have hready : receive w = receiveReady (sio cmdP ((w.setLen 3).setHi 0)).2 := by
    change receivePoll (59 + 1) w = _
    simp only [receivePoll, hpoll, hpacket0]
    rfl
  rw [hready]
  generalize (sio cmdP ((w.setLen 3).setHi 0)).2 = w₁ at *
  have hn : w₁.packet 1 = BitVec.ofNat 8 r.length := hpacket1
  have hzero : w₁.packet 2 = 0 := hpacket2
  have hne : BitVec.ofNat 8 r.length ≠ 0 := by bv_omega
  simp only [receiveReady, Wire.setHi_wireHi, Wire.setHi_packet, hn, hzero]
  rw [if_neg (by simp), if_neg (by simpa using hne)]
  have hok : (sio cmdR ((w₁.setHi 0).setLen (BitVec.ofNat 8 r.length))).1 = true := by
    rw [sio_fst, Wire.setLen_results, Wire.setHi_results, hresults]
  have hlen' : ((w₁.setHi 0).setLen (BitVec.ofNat 8 r.length)).len = r.length := by
    simp only [Wire.len, Wire.setLen_wireLen, Wire.setLen_wireHi, Wire.setHi_wireHi]
    bv_omega
  rw [hok]
  refine ⟨rfl, rfl, ?_, hcommand, fun i hi => ?_⟩
  · change (BitVec.ofNat 8 r.length).toNat = r.length
    bv_omega
  · change (sio cmdR ((w₁.setHi 0).setLen (BitVec.ofNat 8 r.length))).2.packet i = _
    rw [sio_read_packet (by decide) _ (by rw [hlen']; exact hi), Wire.setLen_results, Wire.setHi_results, hresults]

/-- A device that answers at once with a well-formed response: the transaction
succeeds, whatever the request was. -/
theorem transact_prompt {w : Wire} {p : List Byte} {rs : List (List Byte)} (hp : PayloadOk p)
    (hresults : w.results = prompt (replyBytes w.command p :: rs)) :
    (transact w).1 = false ∧ payloadOf (replyOf (transact w).2) = p := by
  have hw : (sio cmdW (sealRequest w)).1 = true := by
    rw [sio_fst]
    change (w.results 0).status = 1
    rw [hresults]
    rfl
  have hcommand : (sio cmdW (sealRequest w)).2.command = w.command := rfl
  have hnext (n : ℕ) : (sio cmdW (sealRequest w)).2.results n = w.results (n + 1) := rfl
  simp only [transact, hw]
  generalize (sio cmdW (sealRequest w)).2 = w₁ at *
  have hle := hp.length
  have hlength := length_replyBytes w.command p
  obtain ⟨hc, hhi, hlen, hsame, hpacket⟩ := receive_prompt (w := w₁) (r := replyBytes w.command p) (by omega) (by omega)
    (by rw [hnext, hresults]; rfl) (by rw [hnext, hresults]; rfl)
  simp only [hc]
  generalize (receive w₁).2 = w₂ at *
  have harrived : Arrived w₂ p := by
    refine ⟨hhi, hlen.trans hlength, fun i hi => ?_⟩
    rw [hpacket i (by omega), hsame, hcommand]
  exact harrived.checkReply hp

/-! ### Calls of a program with one channel -/

/-- The program's memory: IOCB 1 with `mode` and the name `N1:a` at `$0600`. -/
def channelMem (mode : Byte) (a : Word) : Byte :=
  if a = 0x035a then mode
  else if a = 0x0355 then 6
  else if 0x0600 ≤ a then [0x4e, 0x31, 0x3a, 0x61].getD (a - 0x0600).toNat 0
  else 0

/-- A call on IOCB 1, with the replies to its requests. -/
def channelCall (op : Op) (mode a : Byte) (replies : List (List Byte)) : Call where
  op := op
  a := a
  x := 0x10
  zp := (0, 0)
  mem := channelMem mode
  results := prompt replies

/-- An OPEN that is answered with the handle 5. -/
def channelOpen (mode : Byte) : Call := channelCall .openIocb mode 0 [replyBytes 1 [1, 0, 0, 0, 5, 0, 0]]

/-- The response to a READ or WRITE of handle 5 with count `n`. -/
def rwReply (command flags n : Byte) (data : List Byte) : List Byte :=
  replyBytes command ([1, flags, 0, 0, 5, 0, 0, 0, 0, 0, n, 0] ++ data)

example : (perform (channelOpen 4) init).1.y = 1 := by decide +kernel

end NioApps.Resident
