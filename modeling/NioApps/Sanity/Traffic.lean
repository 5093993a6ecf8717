import NioApps.Sanity.Calls

/-! How many SIO calls the routines make. `Attempt` is the traffic of one packet:
what `begin_packet` drains, one W and what `receive` polls. `flush` repeats itself
only with a shorter cache, so LEN bounds the number of its packets. -/

namespace NioApps.Resident

/-! ### The commands on the wire -/

/-- The commands of the SIO calls among some events. -/
def commands (es : List Event) : List Byte :=
  es.filterMap fun
    | .sio dcb _ _ => some dcb.command
    | _ => none

/-- At most `n` P, and then at most one R. -/
def Polls (n : ℕ) (cs : List Byte) : Prop :=
  ∃ i ≤ n, ∃ j ≤ 1, cs = List.replicate i cmdP ++ List.replicate j cmdR

/-- One packet: a drain and, unless that failed, one W and its `receive`. -/
def Attempt (cs : List Byte) : Prop :=
  ∃ d, Polls 60 d ∧ (cs = d ∨ ∃ r, Polls 60 r ∧ cs = d ++ cmdW :: r)

/-- At most `n` packets. -/
def Traffic (n : ℕ) (cs : List Byte) : Prop :=
  ∃ ps : List (List Byte), ps.length ≤ n ∧ (∀ p ∈ ps, Attempt p) ∧ ps.flatten = cs

@[simp] theorem commands_append (es fs : List Event) : commands (es ++ fs) = commands es ++ commands fs :=
  List.filterMap_append

theorem polls_nil (n : ℕ) : Polls n [] := ⟨0, Nat.zero_le n, 0, Nat.zero_le 1, rfl⟩

theorem polls_fetch (n : ℕ) : Polls n [cmdR] := ⟨0, Nat.zero_le n, 1, le_rfl, rfl⟩

theorem Polls.poll {n : ℕ} {cs : List Byte} (h : Polls n cs) : Polls (n + 1) (cmdP :: cs) := by
  obtain ⟨i, hi, j, hj, rfl⟩ := h
  exact ⟨i + 1, by omega, j, hj, rfl⟩

theorem Polls.length {n : ℕ} {cs : List Byte} (h : Polls n cs) : cs.length ≤ n + 1 := by
  obtain ⟨i, hi, j, hj, rfl⟩ := h
  simp only [List.length_append, List.length_replicate]
  omega

/-- A drain sends no W. -/
theorem Polls.writes {n : ℕ} {cs : List Byte} (h : Polls n cs) : cs.count cmdW = 0 := by
  obtain ⟨i, hi, j, hj, rfl⟩ := h
  rw [List.count_append, List.count_replicate, List.count_replicate]
  rfl

theorem Attempt.length {cs : List Byte} (h : Attempt cs) : cs.length ≤ 123 := by
  obtain ⟨d, hd, rfl | ⟨r, hr, rfl⟩⟩ := h
  · have := hd.length
    omega
  · have := hd.length
    have := hr.length
    rw [List.length_append, List.length_cons]
    omega

theorem Attempt.writes {cs : List Byte} (h : Attempt cs) : cs.count cmdW ≤ 1 := by
  obtain ⟨d, hd, rfl | ⟨r, hr, rfl⟩⟩ := h
  · rw [hd.writes]
    exact Nat.zero_le 1
  · rw [List.count_append, List.count_cons, hd.writes, hr.writes]
    exact le_rfl

theorem traffic_nil (n : ℕ) : Traffic n [] := ⟨[], Nat.zero_le n, by simp, rfl⟩

theorem Attempt.traffic {cs : List Byte} (h : Attempt cs) : Traffic 1 cs :=
  ⟨[cs], le_rfl, by simpa using h, by simp⟩

theorem Traffic.append {m n : ℕ} {cs ds : List Byte} (h : Traffic m cs) (h' : Traffic n ds) :
    Traffic (m + n) (cs ++ ds) := by
  obtain ⟨ps, hps, hall, rfl⟩ := h
  obtain ⟨qs, hqs, hall', rfl⟩ := h'
  refine ⟨ps ++ qs, ?_, ?_, List.flatten_append⟩
  · rw [List.length_append]
    omega
  · exact List.forall_mem_append.2 ⟨hall, hall'⟩

theorem Traffic.mono {m n : ℕ} {cs : List Byte} (h : Traffic m cs) (hmn : m ≤ n) : Traffic n cs := by
  obtain ⟨ps, hps, hall, hflat⟩ := h
  exact ⟨ps, hps.trans hmn, hall, hflat⟩

/-- As many W as packets at most. -/
theorem Traffic.writes {n : ℕ} {cs : List Byte} (h : Traffic n cs) : cs.count cmdW ≤ n := by
  obtain ⟨ps, hps, hall, rfl⟩ := h
  refine le_trans ?_ hps
  clear hps
  induction ps with
  | nil => simp
  | cons p ps ih =>
    obtain ⟨hp, hrest⟩ := List.forall_mem_cons.1 hall
    have := hp.writes
    have := ih hrest
    rw [List.flatten_cons, List.count_append, List.length_cons]
    omega

theorem length_wFrames (es : List Event) : (wFrames es).length = (commands es).count cmdW := by
  induction es with
  | nil => rfl
  | cons e es ih =>
    cases e with
    | sio dcb status bytes =>
      by_cases h : dcb.command = cmdW
      · simpa [wFrames, commands, h] using ih
      · simpa [wFrames, commands, h] using ih
    | exchange frame reply => simpa [wFrames, commands] using ih
    | store b => simpa [wFrames, commands] using ih

/-! ### The transport -/

/-- From `w` to `w'` the commands sent are some of `P`. -/
def Issued (P : List Byte → Prop) (w w' : Wire) : Prop :=
  ∃ cs, P cs ∧ commands w'.log = commands w.log ++ cs

theorem issued_same {P : List Byte → Prop} (hP : P []) {w w' : Wire} (h : w'.log = w.log) : Issued P w w' :=
  ⟨[], hP, by rw [h, List.append_nil]⟩

theorem Issued.of_log {P : List Byte → Prop} {w w₁ w₂ : Wire} (h : Issued P w w₁)
    (hlog : w₂.log = w₁.log) : Issued P w w₂ := by
  obtain ⟨cs, hcs, heq⟩ := h
  exact ⟨cs, hcs, by rw [hlog, heq]⟩

theorem Issued.mono {P Q : List Byte → Prop} {w w' : Wire} (h : Issued P w w') (hPQ : ∀ cs, P cs → Q cs) :
    Issued Q w w' := by
  obtain ⟨cs, hcs, heq⟩ := h
  exact ⟨cs, hPQ cs hcs, heq⟩

theorem Issued.trans {P Q R : List Byte → Prop} {w₁ w₂ w₃ : Wire} (h : Issued P w₁ w₂) (h' : Issued Q w₂ w₃)
    (hR : ∀ cs ds, P cs → Q ds → R (cs ++ ds)) : Issued R w₁ w₃ := by
  obtain ⟨cs, hcs, heq⟩ := h
  obtain ⟨ds, hds, heq'⟩ := h'
  exact ⟨cs ++ ds, hR cs ds hcs hds, by rw [heq', heq, List.append_assoc]⟩

theorem sio_issued (a : Byte) (w : Wire) : Issued (· = [a]) w (sio a w).2 :=
  ⟨[a], rfl, by rw [sio_log, commands_append]; rfl⟩

theorem receiveReady_issued (n : ℕ) (w : Wire) : Issued (Polls n) w (receiveReady w).2 := by
  unfold receiveReady wireBad
  extract_lets w₁
  split_ifs
  · exact issued_same (polls_nil n) rfl
  · exact issued_same (polls_nil n) rfl
  · have hr : Issued (Polls n) w (sio cmdR (w₁.setLen (w₁.packet 1))).2 :=
      (sio_issued cmdR (w₁.setLen (w₁.packet 1))).mono fun cs hcs => hcs ▸ polls_fetch n
    dsimp only
    split_ifs
    · exact hr
    · exact hr.of_log rfl

theorem receivePoll_issued (n : ℕ) (w : Wire) : Issued (Polls n) w (receivePoll n w).2 := by
  induction n generalizing w with
  | zero => exact issued_same (polls_nil 0) rfl
  | succ n ih =>
    have hpoll {w' : Wire} (h : Issued (Polls n) (sio cmdP ((w.setLen 3).setHi 0)).2 w') :
        Issued (Polls (n + 1)) w w' :=
      Issued.trans (sio_issued cmdP ((w.setLen 3).setHi 0)) h fun cs ds hcs hds => hcs ▸ hds.poll
    simp only [receivePoll]
    split_ifs
    · exact hpoll (ih _)
    · exact hpoll (issued_same (polls_nil n) rfl)
    · exact hpoll (receiveReady_issued n _)
    · exact hpoll (ih _)

theorem receive_issued (w : Wire) : Issued (Polls 60) w (receive w).2 := receivePoll_issued 60 w

theorem beginPacket_issued (a : Byte) (w : Wire) : Issued (Polls 60) w (beginPacket a w).2 := by
  have hr : Issued (Polls 60) w (receive (w.setCommand a)).2 := receive_issued (w.setCommand a)
  simp only [beginPacket]
  split_ifs
  · exact issued_same (polls_nil 60) rfl
  · exact hr.of_log rfl
  · exact hr
  · exact hr.of_log rfl

/-- One W and its `receive`. -/
def Transacts (cs : List Byte) : Prop := ∃ r, Polls 60 r ∧ cs = cmdW :: r

theorem transact_issued (w : Wire) : Issued Transacts w (transact w).2 := by
  have hw : Issued (· = [cmdW]) w (sio cmdW (sealRequest w)).2 := sio_issued cmdW (sealRequest w)
  have htransacts (cs ds : List Byte) (hcs : cs = [cmdW]) (hds : Polls 60 ds) : Transacts (cs ++ ds) :=
    ⟨ds, hds, by rw [hcs]; rfl⟩
  simp only [transact, wireBad]
  generalize sio cmdW (sealRequest w) = r at hw ⊢
  have hr : Issued Transacts w (receive r.2).2 := hw.trans (receive_issued r.2) htransacts
  split_ifs
  · exact hw.mono fun cs hcs => ⟨[], polls_nil 60, hcs⟩
  · exact hr
  · obtain ⟨y, n, hsnd⟩ := checkReply_snd (receive r.2).2
    exact hr.of_log (by rw [hsnd]; rfl)

theorem exchange_issued (w : Wire) : Issued Transacts w (exchange w).2 := by
  obtain ⟨cs, hcs, heq⟩ := transact_issued w
  refine ⟨cs, hcs, ?_⟩
  change commands ((transact w).2.log ++ [_]) = _
  rw [commands_append, heq]
  exact List.append_nil _

/-! ### Packets of an operation -/

/-- From `w` to `w'` at most `n` packets were tried. -/
def Packets (n : ℕ) (w w' : Ram) : Prop := Issued (Traffic n) w.wire w'.wire

theorem packets_same {w w' : Ram} (h : w'.wire.log = w.wire.log) : Packets 0 w w' :=
  issued_same (traffic_nil 0) h

theorem Packets.mono {m n : ℕ} {w w' : Ram} (h : Packets m w w') (hmn : m ≤ n) : Packets n w w' :=
  Issued.mono h fun _ hcs => hcs.mono hmn

theorem Packets.trans {m n : ℕ} {w₁ w₂ w₃ : Ram} (h : Packets m w₁ w₂) (h' : Packets n w₂ w₃) :
    Packets (m + n) w₁ w₃ :=
  Issued.trans h h' fun _ _ hcs hds => hcs.append hds

theorem Packets.of_log {n : ℕ} {w₁ w₂ w₃ : Ram} (h : Packets n w₁ w₂) (hlog : w₃.wire.log = w₂.wire.log) :
    Packets n w₁ w₃ :=
  Issued.of_log h hlog

theorem sessionPacket_issued (a : Byte) (w : Ram) : Issued (Polls 60) w.wire (sessionPacket a w).2.wire := by
  have h := beginPacket_issued a w.wire
  simp only [sessionPacket]
  split_ifs
  · exact h
  · exact h.of_log rfl

/-- A packet whose drain failed. -/
theorem drained_packets {w w' : Ram} (h : Issued (Polls 60) w.wire w'.wire) : Packets 1 w w' :=
  Issued.mono h fun cs hcs => Attempt.traffic ⟨cs, hcs, .inl rfl⟩

/-- A packet that was sent, from the state `v` its request left. -/
theorem transfer_packets {w v : Ram} (h : Issued (Polls 60) w.wire v.wire) : Packets 1 w (transfer v).2 := by
  refine Issued.trans h (exchange_issued v.wire) ?_
  rintro d _ hd ⟨r, hr, heq⟩
  exact Attempt.traffic ⟨d, hd, .inr ⟨r, hr, by rw [heq]⟩⟩

theorem checkRw_log (w : Ram) : (checkRw w).2.wire.log = w.wire.log := by
  unfold checkRw
  split_ifs
  · rfl
  · rfl

/-! ### `flush` -/

/-- One packet of `flush`: its result, or the state in which `@partial` jumps
back to `flush`. -/
def flushPacket (w : Ram) : (Byte × Ram) ⊕ Ram :=
  let (c, w) := sessionPacket 3 w
  if c then .inl (writeError w)
  else
    let (c, w) := transfer (writeRequest w)
    if c then .inl (writeError w)
    else
      let (c, w) := checkRw w
      if c then .inl (writeError w)
      else if w.count < w.owner.len then
        if w.count = 0 then .inl (writeError w)
        else .inr (keepSuffix w)
      else if w.count ≠ w.owner.len then .inl (writeError w)
      else .inl (success (w.setOwner { addOffset w.count w.owner with len := 0 }))

theorem flushLoop_succ (n : ℕ) (w : Ram) :
    flushLoop (n + 1) w = (flushPacket w).elim id (flushLoop n) := by
  simp only [flushLoop, flushPacket]
  split_ifs
  · rfl
  · rfl
  · rfl
  · rfl
  · rfl
  · rfl
  · rfl

/-- The way one packet of `flush` from `w` ends: with a result, or with a cache
that is shorter and not empty. -/
inductive FlushStep (w : Ram) : (Byte × Ram) ⊕ Ram → Prop
  | failed {w' : Ram} (hpackets : Packets 1 w w') : FlushStep w (.inl (0x90, w'))
  | done {w' : Ram} (hpackets : Packets 1 w w') (hempty : w'.owner.len = 0) : FlushStep w (.inl (1, w'))
  | again {w' : Ram} (hpackets : Packets 1 w w') (hpos : 0 < w'.owner.len.toNat)
      (hless : w'.owner.len.toNat < w.owner.len.toNat) : FlushStep w (.inr w')

theorem writeError_step {w v : Ram} (h : Packets 1 w v) : FlushStep w (.inl (writeError v)) :=
  .failed (h.of_log rfl)

theorem keepSuffix_log (w : Ram) : (keepSuffix w).wire.log = w.wire.log := by
  rw [keepSuffix_eq]
  rfl

theorem keepSuffix_len (w : Ram) : (keepSuffix w).owner.len = w.owner.len - w.count := by
  rw [keepSuffix_eq, setCaches_owner, Ram.setOwner_owner]

theorem checkRw_owner (w : Ram) : (checkRw w).2.owner = w.owner := by
  unfold checkRw
  split_ifs
  · rfl
  · rfl

theorem flushPacket_step (w : Ram) : FlushStep w (flushPacket w) := by
  obtain ⟨p, hp, -, -⟩ := sessionPacket_spec 3 w
  obtain ⟨q, hq, hqlog, -, -⟩ := writeRequest_eq w p
  have hdrain := sessionPacket_issued 3 w
  have hsend : Packets 1 w (transfer (writeRequest (sessionPacket 3 w).2)).2 := by
    refine transfer_packets ?_
    rw [hp] at hdrain ⊢
    rw [hq]
    exact hdrain.of_log hqlog
  have hlen : (transfer (writeRequest (sessionPacket 3 w).2)).2.owner.len = w.owner.len := by
    obtain ⟨p', ht, -, -⟩ := transfer_spec (writeRequest (sessionPacket 3 w).2)
    rw [ht, hp, hq, setWire_owner, setWire_owner, Ram.setOwner_owner]
  simp only [flushPacket]
  generalize (transfer (writeRequest (sessionPacket 3 w).2)) = r at hsend hlen ⊢
  have hcheck : Packets 1 w (checkRw r.2).2 := hsend.of_log (checkRw_log r.2)
  rw [← checkRw_owner r.2] at hlen
  generalize checkRw r.2 = s at hcheck hlen ⊢
  split_ifs with hbusy hlost hbad hlt hzero hne
  · exact writeError_step (drained_packets hdrain)
  · exact writeError_step hsend
  · exact writeError_step hcheck
  · exact writeError_step hcheck
  · -- the count is positive and below LEN
    have hsub : (s.2.owner.len - s.2.count).toNat = s.2.owner.len.toNat - s.2.count.toNat := by bv_omega
    refine .again (hcheck.of_log (keepSuffix_log s.2)) ?_ ?_
    · rw [keepSuffix_len, hsub]
      bv_omega
    · rw [keepSuffix_len, hsub, ← hlen]
      bv_omega
  · exact writeError_step hcheck
  · exact .done (hcheck.of_log rfl) (congrArg Owner.len (Ram.setOwner_owner ..))

/-- `flush` from `w` ends with `r` after exactly `n` packets. -/
inductive FlushEnds : ℕ → Ram → Byte × Ram → Prop
  | last {w : Ram} {r : Byte × Ram} (h : flushPacket w = .inl r) : FlushEnds 1 w r
  | again {n : ℕ} {w w' : Ram} {r : Byte × Ram} (h : flushPacket w = .inr w') (hrest : FlushEnds n w' r) :
      FlushEnds (n + 1) w r

/-- Every acknowledgement that leaves a suffix shortens the cache, so `flush` ends. -/
theorem flushLoop_ends (n : ℕ) (w : Ram) (hn : w.owner.len.toNat < n) :
    ∃ k ≤ max w.owner.len.toNat 1, FlushEnds k w (flushLoop n w) := by
  induction n generalizing w with
  | zero => omega
  | succ n ih =>
    have hstep := flushPacket_step w
    rw [flushLoop_succ]
    cases hpacket : flushPacket w with
    | inl r => exact ⟨1, le_max_right _ _, .last hpacket⟩
    | inr w' =>
      rw [hpacket] at hstep
      cases hstep with
      | again hpackets hpos hless =>
        obtain ⟨k, hk, hends⟩ := ih w' (by omega)
        exact ⟨k + 1, by omega, .again hpacket hends⟩

theorem flush_ends (w : Ram) : ∃ k ≤ max w.owner.len.toNat 1, FlushEnds k w (flush w) :=
  flushLoop_ends _ w (Nat.lt_succ_self _)

theorem FlushEnds.packets {n : ℕ} {w : Ram} {r : Byte × Ram} (h : FlushEnds n w r) : Packets n w r.2 := by
  induction h with
  | last h =>
    rename_i w r
    have hstep := flushPacket_step w
    rw [h] at hstep
    cases hstep with
    | failed hpackets => exact hpackets
    | done hpackets => exact hpackets
  | again h hrest ih =>
    rename_i n w w' r
    have hstep := flushPacket_step w
    rw [h] at hstep
    cases hstep with
    | again hpackets => exact (hpackets.trans ih).mono (by omega)

theorem FlushEnds.empty {n : ℕ} {w : Ram} {r : Byte × Ram} (h : FlushEnds n w r) (hr : r.1 = 1) :
    r.2.owner.len = 0 := by
  induction h with
  | last h =>
    rename_i w r
    have hstep := flushPacket_step w
    rw [h] at hstep
    cases hstep with
    | failed => exact absurd (show (0x90 : Byte) = 1 from hr) (by decide)
    | done _ hempty => exact hempty
  | again _ _ ih => exact ih hr

end NioApps.Resident
