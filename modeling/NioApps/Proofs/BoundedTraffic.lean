import NioApps.Sanity.Prompt
import NioApps.Sanity.Traffic

/-! Every call ends after at most 130 packets. A CLOSE or a GET after writing comes
closest: up to 128 packets for the cached bytes, the terminal commit and one
packet of its own. -/

namespace NioApps.Resident

variable {w : Ram}

/-! ### Writing -/

theorem flush_packets (w : Ram) : Packets (max w.owner.len.toNat 1) w (flush w).2 := by
  obtain ⟨k, hk, hends⟩ := flush_ends w
  exact hends.packets.mono hk

theorem flush_empty (h : (flush w).1 = 1) : (flush w).2.owner.len = 0 := by
  obtain ⟨k, hk, hends⟩ := flush_ends w
  exact hends.empty h

theorem commit_packets (h : w.owner.len = 0) : Packets 1 w (commit w).2 := by
  have hflush : Packets 1 w (flush w).2 := (flush_packets w).mono (by rw [h]; decide)
  simp only [commit]
  split_ifs
  · exact hflush
  · exact hflush.of_log rfl

theorem finishWrite_packets (h : w.owner.len.toNat ≤ 128) : Packets 129 w (finishWrite w).2 := by
  have hnone : Packets 129 w w := (packets_same rfl).mono (by omega)
  have hflush : Packets 128 w (flush w).2 := (flush_packets w).mono (by omega)
  simp only [finishWrite]
  split_ifs with hfault hcommitted hempty hfailed
  · exact hnone
  · exact hnone
  · exact (commit_packets hempty).mono (by omega)
  · exact hflush.mono (by omega)
  · exact hflush.trans (commit_packets (flush_empty (not_not.1 hfailed)))

theorem doPut_packets (w : Ram) : Packets 128 w (doPut w).2 := by
  have hnone : Packets 128 w w := (packets_same rfl).mono (by omega)
  have hstore : Packets 0 w (storeByte w) := by
    refine Issued.trans (Q := (· = [])) (issued_same (P := (· = [])) rfl rfl)
      ⟨[], rfl, ?_⟩ fun cs ds hcs hds => by rw [hcs, hds]; exact traffic_nil 0
    change commands (w.wire.log ++ [_]) = _
    rw [commands_append]
    rfl
  rw [doPut_eq]
  split_ifs with hread hover hroom
  · exact hnone
  · exact hnone
  · exact hstore.mono (by omega)
  · have hfull : (storeByte w).owner.len = 128 := not_not.1 hroom
    exact (hstore.trans (flush_packets (storeByte w))).mono (by rw [hfull]; decide)

/-! ### One packet -/

theorem getCached_log (w : Ram) : (getCached w).2.wire.log = w.wire.log := rfl

theorem getRefill_packets (w : Ram) : Packets 1 w (getRefill w).2 := by
  obtain ⟨p, hp, -, -⟩ := sessionPacket_spec 2 w
  have hdrain := sessionPacket_issued 2 w
  have hsend : Packets 1 w (transfer (readRequest (sessionPacket 2 w).2)).2 :=
    transfer_packets (hdrain.of_log rfl)
  simp only [getRefill]
  have hcheck := hsend.of_log (checkRw_log (transfer (readRequest (sessionPacket 2 w).2)).2)
  generalize transfer (readRequest (sessionPacket 2 w).2) = r at hsend hcheck ⊢
  split_ifs
  · exact drained_packets hdrain
  · exact hsend
  · exact hcheck
  · exact hcheck
  · exact hcheck.of_log rfl
  · exact hcheck.of_log rfl

theorem getRead_packets (w : Ram) : Packets 1 w (getRead w).2 := by
  have hnone : Packets 1 w w := (packets_same rfl).mono (by omega)
  simp only [getRead]
  split_ifs
  · exact hnone.of_log (getCached_log w)
  · exact hnone
  · exact getRefill_packets w

theorem statusInfo_packets (w : Ram) : Packets 1 w (statusInfo w).2 := by
  have hdrain := sessionPacket_issued 5 w
  have hsend := transfer_packets hdrain
  simp only [statusInfo]
  split_ifs
  · exact drained_packets hdrain
  · exact hsend
  · exact hsend
  · exact hsend
  · exact hsend
  · exact hsend

theorem closeSession_packets (r : Byte) (w : Ram) : Packets 1 w (closeSession r w).2 := by
  have hdrain := sessionPacket_issued 4 w
  have hsend := transfer_packets hdrain
  simp only [closeSession]
  split_ifs
  · exact drained_packets hdrain
  · exact hsend
  · exact hsend

theorem openExchange_packets {v : Ram} (mode : Byte) (h : Issued (Polls 60) w.wire v.wire) :
    Packets 1 w (openExchange mode v).2 := by
  have hsend := transfer_packets h
  simp only [openExchange]
  split_ifs
  · exact hsend
  · exact hsend
  · exact hsend
  · exact hsend.of_log rfl

theorem openRequest_log (mode : Byte) (n : ℕ) (p : Wire) : (openRequest mode n p).log = p.log := by
  unfold openRequest
  split_ifs <;> rfl

theorem openNamed_packets (mem : Word → Byte) (mode : Byte) (w : Ram) : Packets 1 w (openNamed mem mode w).2 := by
  have hdrain : Issued (Polls 60) w.wire (beginPacket 1 w.wire).2 := beginPacket_issued 1 w.wire
  have hbad {v : Ram} (hlog : v.wire.log = (beginPacket 1 w.wire).2.log) : Packets 1 w v :=
    drained_packets (hdrain.of_log hlog)
  simp only [openNamed]
  split_ifs
  · exact hbad rfl
  · exact hbad rfl
  · exact hbad rfl
  · exact hbad rfl
  · exact hbad rfl
  · split
    · exact hbad rfl
    · exact hbad rfl
    · exact openExchange_packets mode (hdrain.of_log (openRequest_log ..))

theorem doOpen_packets (mem : Word → Byte) (w : Ram) : Packets 1 w (doOpen mem w).2 := by
  have hnone : Packets 1 w w := (packets_same rfl).mono (by omega)
  simp only [doOpen]
  split_ifs
  · exact hnone
  · exact openNamed_packets mem _ (w.setSlot .x16)
  · exact openNamed_packets mem _ (w.setSlot .x0)
  · exact hnone

/-! ### The operations -/

theorem getEnter_packets (h : w.owner.len.toNat ≤ 128) : Packets 129 w (getEnter w).2 := by
  have hnone : Packets 129 w w := (packets_same rfl).mono (by omega)
  simp only [getEnter]
  split_ifs
  · exact hnone
  · exact hnone
  · exact hnone
  · exact finishWrite_packets h
  · exact (finishWrite_packets h).of_log rfl

theorem doGet_packets (h : w.owner.len.toNat ≤ 128) : Packets 130 w (doGet w).2 := by
  have henter := getEnter_packets h
  rw [doGet]
  split
  · rename_i y v heq
    rw [heq] at henter
    exact henter.mono (by omega)
  · rename_i v heq
    rw [heq] at henter
    exact henter.trans (getRead_packets v)

theorem doStatus_packets (h : w.owner.len.toNat ≤ 128) : Packets 130 w (doStatus w).2 := by
  simp only [doStatus]
  split_ifs
  · exact (statusInfo_packets w).mono (by omega)
  · exact (finishWrite_packets h).mono (by omega)
  · exact (finishWrite_packets h).trans (statusInfo_packets _)

theorem doClose_packets (h : w.owner.len.toNat ≤ 128) : Packets 130 w (doClose w).2 := by
  have hsettle : Packets 129 w (if w.owner.mode = 4 then success w else finishWrite w).2 := by
    split_ifs
    · exact (packets_same rfl).mono (by omega)
    · exact finishWrite_packets h
  exact (hsettle.trans (closeSession_packets _ _)).of_log rfl

theorem dispatch_packets (mem : Word → Byte) (op : Op)
    (h : ∀ k, (w.owners k).own ≠ 0xff → (w.owners k).len.toNat ≤ 128) : Packets 130 w (dispatch mem op w).2 := by
  have hnone : Packets 130 w w := (packets_same rfl).mono (by omega)
  unfold dispatch
  split_ifs with hx
  · exact hnone
  · cases hfind : findOwner w with
    | none =>
      cases op with
      | openIocb => exact (doOpen_packets mem w).mono (by omega)
      | _ => exact hnone
    | some k =>
      have hlive : (w.owners k).own ≠ 0xff := by
        rw [findOwner_some hfind]
        exact invalid_of_ff (not_not.1 hx)
      have hlen : (w.setSlot k).owner.len.toNat ≤ 128 := h k hlive
      cases op with
      | openIocb => exact hnone
      | close => exact doClose_packets hlen
      | get => exact doGet_packets hlen
      | put => exact (doPut_packets (w.setSlot k)).mono (by omega)
      | status => exact doStatus_packets hlen

theorem perform_traffic (c : Call) (h : TableOk w) : Traffic 130 (commands (perform c w).1.events) := by
  obtain ⟨-, hevents, -, -⟩ := perform_entered (c := c) h.busy
  obtain ⟨cs, hcs, heq⟩ := dispatch_packets (w := entered c w) c.mem c.op fun k hk => (h.live k hk).len
  rw [hevents, heq]
  exact hcs

/-- Any call in any state the handler can be in, whatever its SIO calls return,
sends at most 130 packets of at most 123 SIO calls each, and so at most 130 W
frames; and `flush` ends from any state. -/
theorem bounded_traffic (calls : List Call) (c : Call) :
    (∃ ps : List (List Byte), ps.length ≤ 130 ∧ (∀ p ∈ ps, Attempt p ∧ p.length ≤ 123) ∧
        ps.flatten = commands (perform c (after calls)).1.events) ∧
      (wFrames (perform c (after calls)).1.events).length ≤ 130 ∧
      ∀ w : Ram, ∃ k ≤ max w.owner.len.toNat 1, FlushEnds k w (flush w) := by
  have htraffic := perform_traffic c (after_tableOk calls)
  refine ⟨?_, ?_, flush_ends⟩
  · obtain ⟨ps, hps, hall, hflat⟩ := htraffic
    exact ⟨ps, hps, fun p hp => ⟨hall p hp, (hall p hp).length⟩, hflat⟩
  · rw [length_wFrames]
    exact htraffic.writes

/-- A CLOSE with a byte in the cache that is answered: the WRITE of the byte, the commit and the CLOSE packet. -/
theorem bounded_traffic_close :
    let w := after [channelOpen 8, channelCall .put 8 0x41 []]
    let c := channelCall .close 8 0 [rwReply 3 0 1 [], rwReply 3 0 0 [], replyBytes 4 []]
    (wFrames (perform c w).1.events).length = 3 ∧ (wFrames (perform c w).1.events).length ≤ 130 ∧
      ∃ k ≤ max w.owner.len.toNat 1, FlushEnds k w (flush w) := by
  obtain ⟨-, hframes, hflush⟩ := bounded_traffic [channelOpen 8, channelCall .put 8 0x41 []]
    (channelCall .close 8 0 [rwReply 3 0 1 [], rwReply 3 0 0 [], replyBytes 4 []])
  exact ⟨by decide +kernel, hframes, hflush _⟩

end NioApps.Resident
