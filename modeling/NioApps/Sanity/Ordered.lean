import NioApps.Sanity.Wire
import NioApps.Spec.Resident

/-! Every operation of the handler moves the transaction host along
`Host.Step`, so a run of CIO calls is one run of the host from `free`, whatever
the SIO calls return (`history_moves`). -/

namespace NioApps.Resident

open Transaction

/-- The events between `w` and `w'` are moves of the host. -/
def Ordered (w w' : Ram) : Prop := Moves w.wire.host w.wire w'.wire.host w'.wire

theorem Ordered.trans {w₁ w₂ w₃ : Ram} (h : Ordered w₁ w₂) (h' : Ordered w₂ w₃) : Ordered w₁ w₃ :=
  Moves.trans h h'

theorem Ordered.same {w w' : Ram} (hlog : w'.wire.log = w.wire.log)
    (hout : w'.wire.outstanding = w.wire.outstanding) : Ordered w w' := by
  have : w'.wire.host = w.wire.host := by simp only [Wire.host, hout]
  unfold Ordered
  rw [this]
  exact .refl _ hlog

theorem sessionPacket_ordered (a : Byte) (w : Ram) :
    Ordered w (sessionPacket a w).2 ∧
      ((sessionPacket a w).1 = false → (sessionPacket a w).2.wire.outstanding = 0) := by
  obtain ⟨hm, hc⟩ := beginPacket_moves a w.wire
  simp only [sessionPacket]
  split_ifs with h
  · exact ⟨hm, by simp⟩
  · have hb : Ordered w (w.setWire (beginPacket a w.wire).2) := hm
    exact ⟨hb.trans (.same rfl rfl), fun _ => (hc (by simpa using h)).1⟩

theorem transfer_ordered {w : Ram} (h : w.wire.outstanding = 0) : Ordered w (transfer w).2 := by
  have := exchange_moves w.wire
  rwa [← Wire.host_free h] at this

theorem checkRw_snd (w : Ram) : ∃ n, (checkRw w).2 = w.setCount n := by
  unfold checkRw
  split_ifs
  · exact ⟨w.count, rfl⟩
  · exact ⟨_, rfl⟩

theorem checkRw_ordered (w : Ram) : Ordered w (checkRw w).2 := by
  obtain ⟨n, hn⟩ := checkRw_snd w
  rw [hn]
  exact .same rfl rfl

theorem setOwner_ordered (o : Owner) (w : Ram) : Ordered w (w.setOwner o) := .same rfl rfl

theorem writeError_ordered (w : Ram) : Ordered w (writeError w).2 := .same rfl rfl

theorem writeRequest_ordered (w : Ram) : Ordered w (writeRequest w) := .same rfl rfl

theorem keepSuffix_ordered (w : Ram) : Ordered w (keepSuffix w) := .same rfl rfl

theorem readRequest_ordered (w : Ram) : Ordered w (readRequest w) := .same rfl rfl

theorem publishRead_ordered (w : Ram) : Ordered w (publishRead w) := .same rfl rfl

theorem getCached_ordered (w : Ram) : Ordered w (getCached w).2 := .same rfl rfl

theorem writeRequest_outstanding (w : Ram) : (writeRequest w).wire.outstanding = w.wire.outstanding := rfl

theorem readRequest_outstanding (w : Ram) : (readRequest w).wire.outstanding = w.wire.outstanding := rfl

theorem flushLoop_ordered (n : ℕ) (w : Ram) : Ordered w (flushLoop n w).2 := by
  induction n generalizing w with
  | zero => exact writeError_ordered w
  | succ n ih =>
    obtain ⟨hs, hclear⟩ := sessionPacket_ordered 3 w
    simp only [flushLoop]
    generalize sessionPacket 3 w = s at hs hclear ⊢
    have hreq := hs.trans (writeRequest_ordered s.2)
    have hx := fun h => hreq.trans (transfer_ordered ((writeRequest_outstanding s.2).trans (hclear h)))
    generalize transfer (writeRequest s.2) = x at hx ⊢
    have hck := fun h => (hx h).trans (checkRw_ordered x.2)
    generalize checkRw x.2 = k at hck ⊢
    split_ifs with hc ht hk hlt h0 hne
    · exact hs.trans (writeError_ordered _)
    · exact (hx (by simpa using hc)).trans (writeError_ordered _)
    all_goals replace hck := hck (by simpa using hc)
    · exact hck.trans (writeError_ordered _)
    · exact hck.trans (writeError_ordered _)
    · exact (hck.trans (keepSuffix_ordered _)).trans (ih _)
    · exact hck.trans (writeError_ordered _)
    · exact hck.trans (setOwner_ordered _ _)

theorem flush_ordered (w : Ram) : Ordered w (flush w).2 := flushLoop_ordered _ w

theorem commit_ordered (w : Ram) : Ordered w (commit w).2 := by
  simp only [commit]
  split_ifs
  · exact flush_ordered w
  · exact (flush_ordered w).trans (.same rfl rfl)

theorem finishWrite_ordered (w : Ram) : Ordered w (finishWrite w).2 := by
  simp only [finishWrite]
  split_ifs
  · exact .same rfl rfl
  · exact .same rfl rfl
  · exact commit_ordered w
  · exact flush_ordered w
  · exact (flush_ordered w).trans (commit_ordered _)

/-- PUT's store is no move of the host. -/
theorem store_ordered (b : Byte) (w : Ram) : Ordered w (w.setWire (w.wire.record (.store b))) :=
  ⟨[.store b], rfl, .nil _⟩

theorem doPut_ordered (w : Ram) : Ordered w (doPut w).2 := by
  simp only [doPut]
  split_ifs
  · exact .same rfl rfl
  · exact .same rfl rfl
  · exact (store_ordered w.callerA w).trans (.same rfl rfl)
  · exact ((store_ordered w.callerA w).trans (.same rfl rfl)).trans (flush_ordered _)

theorem getRefill_ordered (w : Ram) : Ordered w (getRefill w).2 := by
  obtain ⟨hs, hclear⟩ := sessionPacket_ordered 2 w
  simp only [getRefill]
  generalize sessionPacket 2 w = s at hs hclear ⊢
  have hreq := hs.trans (readRequest_ordered s.2)
  have hx := fun h => hreq.trans (transfer_ordered ((readRequest_outstanding s.2).trans (hclear h)))
  generalize transfer (readRequest s.2) = x at hx ⊢
  have hck := fun h => (hx h).trans (checkRw_ordered x.2)
  generalize checkRw x.2 = k at hck ⊢
  split_ifs with hc ht hk hlen h0
  · exact hs
  · exact hx (by simpa using hc)
  all_goals replace hck := hck (by simpa using hc)
  · exact hck
  · exact hck
  · exact hck.trans (publishRead_ordered _)
  · exact (hck.trans (publishRead_ordered _)).trans (getCached_ordered _)

theorem getRead_ordered (w : Ram) : Ordered w (getRead w).2 := by
  simp only [getRead]
  split_ifs
  · exact .same rfl rfl
  · exact .same rfl rfl
  · exact getRefill_ordered w

theorem getEnter_ordered (w : Ram) : Ordered w (getEnter w).2 := by
  simp only [getEnter]
  split_ifs
  · exact .same rfl rfl
  · exact .same rfl rfl
  · exact .same rfl rfl
  · exact finishWrite_ordered w
  · exact (finishWrite_ordered w).trans (.same rfl rfl)

theorem doGet_ordered (w : Ram) : Ordered w (doGet w).2 := by
  have h := getEnter_ordered w
  unfold doGet
  split <;> rename_i heq <;> rw [heq] at h
  · exact h
  · exact h.trans (getRead_ordered _)

theorem statusInfo_ordered (w : Ram) : Ordered w (statusInfo w).2 := by
  obtain ⟨hs, hclear⟩ := sessionPacket_ordered 5 w
  simp only [statusInfo]
  split_ifs with hc
  · exact hs.trans (.same rfl rfl)
  all_goals exact (hs.trans (transfer_ordered (hclear (by simpa using hc)))).trans (.same rfl rfl)

theorem doStatus_ordered (w : Ram) : Ordered w (doStatus w).2 := by
  simp only [doStatus]
  split_ifs
  · exact statusInfo_ordered w
  · exact finishWrite_ordered w
  · exact (finishWrite_ordered w).trans (statusInfo_ordered _)

theorem closeSession_ordered (r : Byte) (w : Ram) : Ordered w (closeSession r w).2 := by
  obtain ⟨hs, hclear⟩ := sessionPacket_ordered 4 w
  simp only [closeSession]
  split_ifs with hc
  · exact hs
  all_goals exact hs.trans (transfer_ordered (hclear (by simpa using hc)))

theorem doClose_ordered (w : Ram) : Ordered w (doClose w).2 := by
  simp only [doClose]
  split_ifs
  · exact (closeSession_ordered _ _).trans (.same rfl rfl)
  · exact ((finishWrite_ordered w).trans (closeSession_ordered _ _)).trans (.same rfl rfl)

theorem openExchange_ordered (m : Byte) {w : Ram} (h : w.wire.outstanding = 0) :
    Ordered w (openExchange m w).2 := by
  simp only [openExchange]
  split_ifs
  all_goals exact (transfer_ordered h).trans (.same rfl rfl)

theorem openNamed_ordered (mem : Word → Byte) (m : Byte) (w : Ram) :
    Ordered w (openNamed mem m w).2 := by
  obtain ⟨hm, hclear⟩ := beginPacket_moves 1 w.wire
  have hb : Ordered w (w.setWire (beginPacket 1 w.wire).2) := hm
  simp only [openNamed]
  split_ifs with hc
  · exact hb
  · exact hb.trans (.same rfl rfl)
  · exact hb.trans (.same rfl rfl)
  · exact hb.trans (.same rfl rfl)
  · exact hb.trans (.same rfl rfl)
  · have hout := (hclear (by simpa using hc)).1
    split
    · exact hb.trans (.same rfl rfl)
    · exact hb.trans (.same rfl rfl)
    · rename_i n packet _ _
      have hreq : ∀ p : Wire, (openRequest m n p).outstanding = p.outstanding := by
        intro p
        simp only [openRequest]
        split_ifs <;> rfl
      refine (hb.trans (.same ?_ ?_)).trans (openExchange_ordered m ?_)
      · simp only [Ram.setWire_wire, openRequest]
        split_ifs <;> rfl
      · exact hreq _
      · exact (hreq _).trans hout

theorem doOpen_ordered (mem : Word → Byte) (w : Ram) : Ordered w (doOpen mem w).2 := by
  simp only [doOpen]
  split_ifs
  · exact .same rfl rfl
  · exact (Ordered.same rfl rfl).trans (openNamed_ordered mem _ (w.setSlot .x16))
  · exact (Ordered.same rfl rfl).trans (openNamed_ordered mem _ (w.setSlot .x0))
  · exact .same rfl rfl

theorem dispatch_ordered (mem : Word → Byte) (op : Op) (w : Ram) : Ordered w (dispatch mem op w).2 := by
  unfold dispatch
  split_ifs
  · exact .same rfl rfl
  · split
    · exact doOpen_ordered mem w
    · exact .same rfl rfl
    · rename_i k _
      have hk : Ordered w (w.setSlot k) := .same rfl rfl
      dsimp only
      split
      · exact hk
      · exact hk.trans (doClose_ordered _)
      · exact hk.trans (doGet_ordered _)
      · exact hk.trans (doPut_ordered _)
      · exact hk.trans (doStatus_ordered _)

theorem gateway_ordered (c : Call) (w : Ram) : Ordered w (gateway c w).2 := by
  simp only [gateway]
  split_ifs
  · exact .same rfl rfl
  · exact ((Ordered.same rfl rfl).trans
      (dispatch_ordered c.mem c.op ((w.setBusy (w.busy + 1)).setCaller c.a c.x))).trans (.same rfl rfl)

theorem perform_moves (c : Call) (w : Ram) :
    Host.Run w.wire.host (turns (perform c w).1.events) (perform c w).2.wire.host := by
  obtain ⟨es, hlog, hrun⟩ := gateway_ordered c
    ((w.setPtr c.zp).setWire { w.wire with results := c.results, log := [] })
  have hes : (perform c w).1.events = es := by simpa [perform] using hlog
  rw [hes]
  exact hrun

/-- Any run of CIO calls is a run of the host from `free`. -/
theorem history_moves (calls : List Call) :
    Host.Run .free (turns (events (history calls))) (after calls).wire.host := by
  have h0 : Host.Run .free (turns (events [])) init.wire.host := .nil _
  have hstep : ∀ c s os, Host.Run .free (turns (events os)) (Wire.host (Ram.wire s)) →
      Host.Run .free (turns (events (os ++ [(perform c s).1]))) (perform c s).2.wire.host := by
    intro c s os h
    simpa [events] using h.append (perform_moves c s)
  exact handler.run_relation (R := fun s os => Host.Run .free (turns (events os)) s.wire.host) hstep h0 calls

end NioApps.Resident
