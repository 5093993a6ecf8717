import NioApps.Sanity.Packets

/-! Two runs of the transport side by side, from different contents of the packet
buffer, with the same results of the SIO calls. They agree on what was transferred: on
all bytes below the length of the last transfer, on every test, and on every event. -/

namespace NioApps.Resident

/-- Two conditionals on tests with one outcome. -/
theorem ite_rel {α β : Type*} {R : α → β → Prop} {c c' : Prop} [Decidable c] [Decidable c'] {a b : α} {a' b' : β}
    (hc : c ↔ c') (ht : c → R a a') (hf : ¬c → R b b') : R (if c then a else b) (if c' then a' else b') := by
  by_cases h : c
  · rw [if_pos h, if_pos (hc.1 h)]
    exact ht h
  · rw [if_neg h, if_neg (fun h' => h (hc.2 h'))]
    exact hf h

/-- What two runs have in common between the exchanges. -/
structure Low (p p' : Wire) : Prop where
  outstanding : p.outstanding = p'.outstanding
  results : p.results = p'.results
  log : p.log = p'.log

/-- In an exchange for one command. -/
structure Tuned (p p' : Wire) : Prop extends Low p p' where
  command : p.command = p'.command

/-- Before a transfer. -/
structure Asks (p p' : Wire) : Prop extends Tuned p p' where
  wireLen : p.wireLen = p'.wireLen
  wireHi : p.wireHi = p'.wireHi

/-- After a transfer, or before a W. -/
structure Holds (p p' : Wire) : Prop extends Asks p p' where
  bytes : ∀ i < p.len, p.packet i = p'.packet i

/-- Two outcomes that fail together. -/
structure Twin (ok : Wire → Wire → Prop) (r r' : Bool × Wire) : Prop where
  failed : r.1 = r'.1
  tuned : Tuned r.2 r'.2
  done : r.1 = false → ok r.2 r'.2

theorem Twin.bad {ok : Wire → Wire → Prop} {p p' : Wire} (h : Tuned p p') : Twin ok (true, p) (true, p') :=
  ⟨rfl, h, fun h => by cases h⟩

theorem Twin.good {ok : Wire → Wire → Prop} {p p' : Wire} (h : Tuned p p') (hok : ok p p') :
    Twin ok (false, p) (false, p') := ⟨rfl, h, fun _ => hok⟩

theorem Asks.len_eq {p p' : Wire} (h : Asks p p') : p.len = p'.len := by
  rw [Wire.len, Wire.len, h.wireLen, h.wireHi]

/-! ### Transfers -/

theorem sio_flag {a : Byte} {p p' : Wire} (h : Low p p') : (sio a p).1 = (sio a p').1 := by
  rw [sio, sio, h.results]

/-- After an SIO call that leaves the same bytes. -/
theorem sio_holds {a : Byte} {p p' : Wire} (h : Asks p p') (hbytes : ∀ i < p.len, sioPacket a p i = sioPacket a p' i) :
    Holds (sio a p).2 (sio a p').2 where
  outstanding := h.outstanding
  results := by
    dsimp only [sio]
    rw [h.results]
  log := by
    have hslice : slice (sioPacket a p) 0 p.len = slice (sioPacket a p') 0 p.len :=
      slice_congr fun j hj => by rw [Nat.zero_add, hbytes j hj]
    dsimp only [sio]
    rw [h.log, h.results, dcbOf, dcbOf, h.wireLen, h.wireHi, hslice, h.len_eq]
  command := h.command
  wireLen := h.wireLen
  wireHi := h.wireHi
  bytes := hbytes

/-- A transfer to the computer replaces all that is below its length. -/
theorem sio_read {a : Byte} {p p' : Wire} (ha : a ≠ cmdW) (h : Asks p p') : Holds (sio a p).2 (sio a p').2 := by
  refine sio_holds h fun i hi => ?_
  have hi' := hi
  rw [h.len_eq] at hi'
  rw [sioPacket, if_neg ha, sioPacket, if_neg ha, if_pos hi, if_pos hi', h.results]

theorem sio_write {p p' : Wire} (h : Holds p p') : Holds (sio cmdW p).2 (sio cmdW p').2 :=
  sio_holds h.toAsks fun i hi => by rw [sioPacket, if_pos rfl, sioPacket, if_pos rfl, h.bytes i hi]

/-! ### Receiving -/

theorem receiveReady_twin {p p' : Wire} (h : Holds p p') (h3 : p.len = 3) :
    Twin Holds (receiveReady p) (receiveReady p') := by
  have h1 : p.packet 1 = p'.packet 1 := h.bytes 1 (by omega)
  have h2 : p.packet 2 = p'.packet 2 := h.bytes 2 (by omega)
  have hhi : Tuned (p.setHi (p.packet 2)) (p'.setHi (p'.packet 2)) := ⟨⟨h.outstanding, h.results, h.log⟩, h.command⟩
  have hasks : Asks ((p.setHi (p.packet 2)).setLen (p.packet 1)) ((p'.setHi (p'.packet 2)).setLen (p'.packet 1)) :=
    ⟨⟨⟨h.outstanding, h.results, h.log⟩, h.command⟩, h1, h2⟩
  have hread := sio_read (a := cmdR) (by decide) hasks
  have hflag := sio_flag (a := cmdR) hasks.toLow
  rw [receiveReady, receiveReady]
  refine ite_rel (by simp only [Wire.setHi_wireHi, Wire.setHi_packet, h1, h2]) (fun _ => Twin.bad hhi) fun _ => ?_
  refine ite_rel (by simp only [Wire.setHi_wireHi, Wire.setHi_packet, h1, h2]) (fun _ => Twin.bad hhi) fun _ => ?_
  refine ite_rel (iff_of_eq (congrArg (fun z => (!z) = true) hflag)) (fun _ => Twin.bad hread.toTuned) fun _ => ?_
  exact Twin.good ⟨⟨rfl, hread.results, hread.log⟩, hread.command⟩
    ⟨⟨⟨⟨rfl, hread.results, hread.log⟩, hread.command⟩, hread.wireLen, hread.wireHi⟩, hread.bytes⟩

theorem receivePoll_twin (n : ℕ) {p p' : Wire} (h : Tuned p p') : Twin Holds (receivePoll n p) (receivePoll n p') := by
  induction n generalizing p p' with
  | zero => exact Twin.bad h
  | succ n ih =>
    have hasks : Asks ((p.setLen 3).setHi 0) ((p'.setLen 3).setHi 0) :=
      ⟨⟨⟨h.outstanding, h.results, h.log⟩, h.command⟩, rfl, rfl⟩
    have hread := sio_read (a := cmdP) (by decide) hasks
    have hflag := sio_flag (a := cmdP) hasks.toLow
    have hlen : (sio cmdP ((p.setLen 3).setHi 0)).2.len = 3 := rfl
    have h0 := hread.bytes 0 (by rw [hlen]; omega)
    rw [receivePoll, receivePoll]
    refine ite_rel (iff_of_eq (congrArg (fun z => (!z) = true) hflag)) (fun _ => ih hread.toTuned) fun _ => ?_
    refine ite_rel (iff_of_eq (congrArg (· = 0) h0)) (fun _ => ?_) fun _ => ?_
    · exact Twin.bad ⟨⟨rfl, hread.results, hread.log⟩, hread.command⟩
    · exact ite_rel (iff_of_eq (congrArg (· = 2) h0)) (fun _ => receiveReady_twin hread hlen) fun _ => ih hread.toTuned

/-! ### The checks on a response -/

/-- The bytes that `checksum` reads. -/
def span (n : Byte) : ℕ := if n = 0 then 256 else n.toNat

theorem checksum_congr {p p' : Wire} (hlen : p.wireLen = p'.wireLen) (h : ∀ i < span p.wireLen, p.packet i = p'.packet i) :
    checksum p = checksum p' := by
  rw [checksum, checksum, ← hlen]
  exact checksumLoop_congr fun i _ hi _ => h i (by rw [span]; omega)

theorem headerBad_of_short {p : Wire} (h : p.wireHi ≠ 0 ∨ p.wireLen.toNat < 6) : headerBad p = true := by
  rw [headerBad]
  rcases h with h | h
  · have hhi : (p.wireHi != 0) = true := by simpa using h
    rw [hhi]
    simp only [Bool.true_or]
  · have hlen : decide (p.wireLen < 6) = true := decide_eq_true h
    rw [hlen]
    simp only [Bool.or_true, Bool.true_or]

/-- A response that is too short is refused, whatever is read behind it. -/
theorem headerBad_congr {p p' : Wire} (h : Holds p p') : headerBad p = headerBad p' := by
  by_cases hshort : p.wireHi ≠ 0 ∨ p.wireLen.toNat < 6
  · rw [headerBad_of_short hshort, headerBad_of_short (by rw [← h.wireHi, ← h.wireLen]; exact hshort)]
  · obtain ⟨hhi, hlen⟩ := not_or.1 hshort
    have hall : p.len = p.wireLen.toNat := by
      rw [Wire.len, not_not.1 hhi]
      rfl
    have hspan : span p.wireLen = p.wireLen.toNat := by
      rw [span, if_neg]
      intro h0
      rw [h0] at hlen
      exact hlen (by decide)
    have hsum := checksum_congr h.wireLen fun i hi => h.bytes i (by omega)
    rw [headerBad, headerBad, h.wireHi, h.wireLen, h.bytes 0 (by omega), h.bytes 1 (by omega), h.bytes 2 (by omega),
      h.bytes 3 (by omega), h.bytes 4 (by omega), hsum, h.command]

/-- After a response that was accepted. -/
structure Taken (p p' : Wire) : Prop extends Holds p p' where
  payload : p.payload = p'.payload
  payloadLen : p.payloadLen = p'.payloadLen

theorem replyPayload_twin (y : Byte) {p p' : Wire} (h : Holds p p') (hhi : p.wireHi = 0) :
    Twin Taken (replyPayload y p) (replyPayload y p') := by
  have hall : p.len = p.wireLen.toNat := by
    rw [Wire.len, hhi]
    rfl
  have ht : Tuned (p.setPayload y) (p'.setPayload y) := ⟨⟨h.outstanding, h.results, h.log⟩, h.command⟩
  have hn : Tuned ((p.setPayload y).setPayloadLen (p.wireLen - y)) ((p'.setPayload y).setPayloadLen (p'.wireLen - y)) :=
    ⟨⟨h.outstanding, h.results, h.log⟩, h.command⟩
  have hok : Taken ((p.setPayload y).setPayloadLen (p.wireLen - y)) ((p'.setPayload y).setPayloadLen (p'.wireLen - y)) :=
    ⟨⟨⟨hn, h.wireLen, h.wireHi⟩, h.bytes⟩, rfl, by rw [h.wireLen]; rfl⟩
  have hlen : p.wireLen - y = p'.wireLen - y := by rw [h.wireLen]
  rw [replyPayload, replyPayload]
  refine ite_rel (iff_of_eq (congrArg (· < y) h.wireLen)) (fun _ => Twin.bad ht) fun hge => ?_
  refine ite_rel (iff_of_eq (congrArg (· = 0) hlen)) (fun _ => Twin.good hn hok) fun _ => ?_
  refine ite_rel (iff_of_eq (congrArg (· < 4) hlen)) (fun _ => Twin.bad hn) fun hfour => ?_
  -- the version and the two bytes behind it are inside of the payload
  have hroom : y.toNat + 4 ≤ p.len := by
    have hge' : ¬p.wireLen < y := hge
    have hfour' : ¬p.wireLen - y < 4 := hfour
    rw [hall]
    bv_omega
  have hb : ∀ k < 4, p.packet (k + y.toNat) = p'.packet (k + y.toNat) := fun k hk => h.bytes _ (by omega)
  have h0 := hb 0 (by omega)
  rw [Nat.zero_add] at h0
  refine ite_rel (iff_of_eq (congrArg (· ≠ 1) h0)) (fun _ => Twin.bad hn) fun _ => ?_
  refine ite_rel (iff_of_eq (congrArg₂ (fun u v => u ||| v ≠ 0) (hb 2 (by omega)) (hb 3 (by omega)))) (fun _ => Twin.bad hn) fun _ => ?_
  exact Twin.good hn hok

/-- A response of six bytes that names a descriptor byte: it is refused, whatever is read there. -/
theorem checkReply_six {p : Wire} (hlen : p.wireLen.toNat = 6) :
    ∃ y, (if p.packet 6 ≠ 0 then wireBad p else replyPayload 7 p) = (true, p.setPayload y) := by
  have hlt : p.wireLen < 7 := BitVec.lt_def.2 (by rw [hlen]; decide)
  by_cases h6 : p.packet 6 ≠ 0
  · exact ⟨p.payload, if_pos h6⟩
  · exact ⟨7, (if_neg h6).trans (if_pos hlt)⟩

theorem checkReply_twin {p p' : Wire} (h : Holds p p') : Twin Taken (checkReply p) (checkReply p') := by
  rw [checkReply, checkReply]
  refine ite_rel (by rw [headerBad_congr h]) (fun _ => Twin.bad h.toTuned) fun hgood => ?_
  have hshort : ¬(p.wireHi ≠ 0 ∨ p.wireLen.toNat < 6) := fun hs => hgood (headerBad_of_short hs)
  obtain ⟨hhi, hlen⟩ := not_or.1 hshort
  have hall : p.len = p.wireLen.toNat := by
    rw [Wire.len, not_not.1 hhi]
    rfl
  have h5 := h.bytes 5 (by omega)
  refine ite_rel (by rw [h5]) (fun _ => replyPayload_twin 6 h (not_not.1 hhi)) fun _ => ?_
  refine ite_rel (by rw [h5]) (fun _ => Twin.bad h.toTuned) fun _ => ?_
  by_cases hsix : p.wireLen.toNat = 6
  · obtain ⟨y, hy⟩ := checkReply_six hsix
    obtain ⟨y', hy'⟩ := checkReply_six (p := p') (by rw [← h.wireLen, hsix])
    rw [hy, hy']
    exact Twin.bad ⟨⟨h.outstanding, h.results, h.log⟩, h.command⟩
  · have h6 := h.bytes 6 (by omega)
    exact ite_rel (by rw [h6]) (fun _ => Twin.bad h.toTuned) fun _ => replyPayload_twin 7 h (not_not.1 hhi)

/-! ### Requests -/

/-- A request, ready to be sent: its bytes, and all that its checksum covers. -/
structure Built (p p' : Wire) : Prop extends Tuned p p' where
  requestLen : p.requestLen = p'.requestLen
  bytes : ∀ i < span p.requestLen, p.packet i = p'.packet i

theorem toNat_le_span (n : Byte) : n.toNat ≤ span n := by
  have := n.isLt
  rw [span]
  split_ifs <;> omega

theorem update_congr {f g : ℕ → Byte} {k n : ℕ} {x y : Byte} (hxy : x = y) (h : ∀ i < n, f i = g i) :
    ∀ i < n, Function.update f k x i = Function.update g k y i := by
  intro i hi
  rw [Function.update_apply, Function.update_apply, hxy, h i hi]

theorem sealRequest_twin {p p' : Wire} (h : Built p p') : Holds (sealRequest p) (sealRequest p') := by
  have hlen := update_congr (k := 2) h.requestLen h.bytes
  have hsum : checksum (((p.setHi 0).poke 2 p.requestLen).setLen p.requestLen) =
      checksum (((p'.setHi 0).poke 2 p'.requestLen).setLen p'.requestLen) := checksum_congr h.requestLen hlen
  have hall : (sealRequest p).len = p.requestLen.toNat := rfl
  have hspan := toNat_le_span p.requestLen
  exact {
    outstanding := rfl
    results := h.results
    log := h.log
    command := h.command
    wireLen := h.requestLen
    wireHi := rfl
    bytes := fun i hi => update_congr hsum hlen i (by omega) }

theorem transact_twin {p p' : Wire} (h : Built p p') : Twin Taken (transact p) (transact p') := by
  have hseal := sealRequest_twin h
  have hwrite := sio_write hseal
  have hflag := sio_flag (a := cmdW) hseal.toLow
  have hrecv := receivePoll_twin 60 hwrite.toTuned
  rw [transact, transact]
  refine ite_rel (iff_of_eq (congrArg (fun z => (!z) = true) hflag)) (fun _ => Twin.bad hwrite.toTuned) fun _ => ?_
  refine ite_rel (iff_of_eq (congrArg (· = true) hrecv.failed)) (fun _ => Twin.bad hrecv.tuned) fun hc => ?_
  exact checkReply_twin (hrecv.done (Bool.eq_false_iff.2 hc))

theorem exchange_twin {p p' : Wire} (h : Built p p') : Twin Taken (exchange p) (exchange p') := by
  have hseal := sealRequest_twin h
  have hframe : frameOf p = frameOf p' := by
    rw [frameOf, frameOf, ← hseal.len_eq]
    exact slice_congr fun j hj => hseal.bytes _ (by omega)
  have ht := transact_twin h
  have hreply : (if (transact p).1 then none else some (slice (transact p).2.packet 0 (transact p).2.wireLen.toNat)) =
      if (transact p').1 then none else some (slice (transact p').2.packet 0 (transact p').2.wireLen.toNat) := by
    refine ite_rel (R := Eq) (iff_of_eq (congrArg (· = true) ht.failed)) (fun _ => rfl) fun hc => ?_
    have htaken := ht.done (Bool.eq_false_iff.2 hc)
    rw [← htaken.wireLen]
    refine congrArg some (slice_congr fun j hj => htaken.bytes _ ?_)
    rw [Wire.len]
    omega
  have hlog : (transact p).2.log ++ [.exchange (frameOf p) (if (transact p).1 then none
        else some (slice (transact p).2.packet 0 (transact p).2.wireLen.toNat))] =
      (transact p').2.log ++ [.exchange (frameOf p') (if (transact p').1 then none
        else some (slice (transact p').2.packet 0 (transact p').2.wireLen.toNat))] := by
    rw [hreply, hframe, ht.tuned.log]
  have htuned : Tuned (exchange p).2 (exchange p').2 := ⟨⟨ht.tuned.outstanding, ht.tuned.results, hlog⟩, ht.tuned.command⟩
  refine ⟨ht.failed, htuned, fun hc => ?_⟩
  have htaken := ht.done hc
  exact ⟨⟨⟨htuned, htaken.wireLen, htaken.wireHi⟩, htaken.bytes⟩, htaken.payload, htaken.payloadLen⟩

/-- The part of the packet buffer that `begin_packet` clears. -/
def Cleared (p p' : Wire) : Prop := ∀ i < packetMax, p.packet i = p'.packet i

theorem clearPacket_twin {p p' : Wire} (h : Tuned p p') : Twin Cleared (false, clearPacket p) (false, clearPacket p') := by
  refine Twin.good ⟨⟨h.outstanding, h.results, h.log⟩, h.command⟩ fun i hi => ?_
  dsimp only [clearPacket, Wire.setPacket]
  rw [h.command, if_pos hi, if_pos hi]

theorem beginPacket_twin (a : Byte) {p p' : Wire} (h : Low p p') : Twin Cleared (beginPacket a p) (beginPacket a p') := by
  have ht : Tuned (p.setCommand a) (p'.setCommand a) := ⟨⟨h.outstanding, h.results, h.log⟩, rfl⟩
  have hrecv := receivePoll_twin 60 ht
  rw [beginPacket, beginPacket]
  refine ite_rel (iff_of_eq (congrArg (· = 0) h.outstanding)) (fun _ => clearPacket_twin ht) fun _ => ?_
  refine ite_rel (iff_of_eq (congrArg (fun z => (!z) = true) hrecv.failed)) (fun _ => clearPacket_twin hrecv.tuned) fun _ => ?_
  refine ite_rel (iff_of_eq (congrArg (· ≠ 0) hrecv.tuned.outstanding)) (fun _ => Twin.bad hrecv.tuned) fun _ => ?_
  exact clearPacket_twin hrecv.tuned

end NioApps.Resident
