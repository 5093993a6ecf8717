import NioApps.Sanity.Wire
import NioApps.Spec.Packets

/-! The requests the handler builds and the responses it reads, as byte lists.
`sessionPacket_spec`, `transfer_spec` and `checkRw_eq` are all that the
operations need to know about the packet buffer. -/

namespace NioApps.Resident

/-! ### The log -/

@[simp] theorem exchanges_nil : exchanges [] = [] := rfl

@[simp] theorem stores_nil : stores [] = [] := rfl

@[simp] theorem exchanges_append (es fs : List Event) :
    exchanges (es ++ fs) = exchanges es ++ exchanges fs := List.filterMap_append

@[simp] theorem stores_append (es fs : List Event) : stores (es ++ fs) = stores es ++ stores fs :=
  List.filterMap_append

@[simp] theorem wFrames_append (es fs : List Event) : wFrames (es ++ fs) = wFrames es ++ wFrames fs :=
  List.filterMap_append

/-- Between `w` and `w'` the frames `fs` were sent, the exchanges `xs` returned
and PUT stored `bs`. -/
def Sent (w w' : Wire) (fs : List (List Byte)) (xs : List Exchange) (bs : List Byte) : Prop :=
  ∃ es, w'.log = w.log ++ es ∧ wFrames es = fs ∧ exchanges es = xs ∧ stores es = bs

/-- As `Sent`, with one W frame for each exchange. -/
def Logs (w w' : Wire) (xs : List Exchange) (bs : List Byte) : Prop := Sent w w' (xs.map Prod.fst) xs bs

theorem Sent.trans {w₁ w₂ w₃ : Wire} {fs gs : List (List Byte)} {xs ys : List Exchange} {bs cs : List Byte}
    (h : Sent w₁ w₂ fs xs bs) (h' : Sent w₂ w₃ gs ys cs) : Sent w₁ w₃ (fs ++ gs) (xs ++ ys) (bs ++ cs) := by
  obtain ⟨es, hlog, rfl, rfl, rfl⟩ := h
  obtain ⟨es', hlog', rfl, rfl, rfl⟩ := h'
  exact ⟨es ++ es', by rw [hlog', hlog, List.append_assoc], by simp, by simp, by simp⟩

theorem Logs.same {w w' : Wire} (h : w'.log = w.log) : Logs w w' [] [] :=
  ⟨[], by simpa using h, rfl, rfl, rfl⟩

theorem Logs.trans {w₁ w₂ w₃ : Wire} {xs ys : List Exchange} {bs cs : List Byte}
    (h : Logs w₁ w₂ xs bs) (h' : Logs w₂ w₃ ys cs) : Logs w₁ w₃ (xs ++ ys) (bs ++ cs) := by
  have := Sent.trans h h'
  rwa [← List.map_append] at this

theorem Logs.quiet {w₁ w₂ w₃ : Wire} (h : Logs w₁ w₂ [] []) (h' : Logs w₂ w₃ [] []) :
    Logs w₁ w₃ [] [] := h.trans h'

theorem Logs.of_log {w w₁ w₂ : Wire} {xs : List Exchange} {bs : List Byte} (h : Logs w₁ w₂ xs bs)
    (hlog : w₁.log = w.log) : Logs w w₂ xs bs := by
  obtain ⟨es, hes, hfs, hxs, hbs⟩ := h
  exact ⟨es, by rw [hes, hlog], hfs, hxs, hbs⟩

theorem sio_logs {a : Byte} (ha : a ≠ cmdW) (w : Wire) : Logs w (sio a w).2 [] [] :=
  ⟨[sioEvent a w], rfl, by simp [wFrames, sioEvent, dcbOf, ha], rfl, rfl⟩

theorem receiveReady_logs (w : Wire) : Logs w (receiveReady w).2 [] [] := by
  unfold receiveReady wireBad
  extract_lets w₁
  split_ifs
  · exact .same rfl
  · exact .same rfl
  · have hr : Logs w (sio cmdR (w₁.setLen (w₁.packet 1))).2 [] [] :=
      (sio_logs (by decide) _).of_log rfl
    dsimp only
    split_ifs
    · exact hr
    · exact hr.quiet (.same rfl)

theorem receivePoll_logs (n : ℕ) (w : Wire) : Logs w (receivePoll n w).2 [] [] := by
  induction n generalizing w with
  | zero => exact .same rfl
  | succ n ih =>
    have hsio : Logs w (sio cmdP ((w.setLen 3).setHi 0)).2 [] [] := (sio_logs (by decide) _).of_log rfl
    simp only [receivePoll]
    split_ifs
    · exact hsio.quiet (ih _)
    · exact hsio
    · exact hsio.quiet (receiveReady_logs _)
    · exact hsio.quiet (ih _)

theorem receive_logs (w : Wire) : Logs w (receive w).2 [] [] := receivePoll_logs 60 w

theorem beginPacket_logs (a : Byte) (w : Wire) : Logs w (beginPacket a w).2 [] [] := by
  have hr : Logs w (receive (w.setCommand a)).2 [] [] := (receive_logs _).of_log rfl
  simp only [beginPacket]
  split_ifs
  · exact .same rfl
  · exact hr.quiet (.same rfl)
  · exact hr
  · exact hr.quiet (.same rfl)

/-- The one W frame of a transaction. -/
theorem transact_sent (w : Wire) : Sent w (transact w).2 [frameOf w] [] [] := by
  have hw : Sent w (sio cmdW (sealRequest w)).2 [frameOf w] [] [] :=
    ⟨[sioEvent cmdW (sealRequest w)], rfl, rfl, rfl, rfl⟩
  simp only [transact, wireBad]
  generalize sio cmdW (sealRequest w) = r at hw ⊢
  have hr : Sent w (receive r.2).2 [frameOf w] [] [] := hw.trans (receive_logs r.2)
  split_ifs
  · exact hw
  · exact hr
  · obtain ⟨y, n, hsnd⟩ := checkReply_snd (receive r.2).2
    have hsame : Logs (receive r.2).2 (checkReply (receive r.2).2).2 [] [] := .same (by rw [hsnd]; rfl)
    exact hr.trans hsame

/-- The response in the packet buffer. -/
def replyOf (w : Wire) : List Byte := slice w.packet 0 w.wireLen.toNat

/-- `exchange` sends one frame; with carry clear the buffer holds an accepted response. -/
theorem exchange_spec (w : Wire) :
    Logs w (exchange w).2
        [(frameOf w, if (exchange w).1 then none else some (replyOf (exchange w).2))] [] ∧
      ((exchange w).1 = false → Accepted (exchange w).2) := by
  obtain ⟨h, -, hend⟩ := transact_moves w
  have hreturn : Sent (transact w).2 (exchange w).2 []
      [(frameOf w, if (exchange w).1 then none else some (replyOf (exchange w).2))] [] := ⟨_, rfl, rfl, rfl, rfl⟩
  refine ⟨(transact_sent w).trans hreturn, fun hc => ?_⟩
  change (transact w).1 = false at hc
  rw [hc] at hend
  cases hend with
  | accepted _ hacc => exact ⟨hacc.hi, hacc.short, hacc.payload, hacc.total⟩

/-! ### Requests -/

theorem frameOf_length (w : Wire) : (frameOf w).length = w.requestLen.toNat := by
  simp [frameOf, sealRequest, Wire.len]

theorem sealRequest_packet (w : Wire) {i : ℕ} (h2 : i ≠ 2) (h4 : i ≠ 4) :
    (sealRequest w).packet i = w.packet i := by
  simp [sealRequest, Function.update_of_ne, h2, h4]

theorem frameOf_getD (w : Wire) {i : ℕ} (h2 : i ≠ 2) (h4 : i ≠ 4) (hi : i < w.requestLen.toNat) :
    (frameOf w).getD i 0 = w.packet i := by
  have hlen : i < (sealRequest w).len := by simpa [sealRequest, Wire.len] using hi
  rw [List.getD_eq_getElem?_getD, frameOf, getElem?_slice _ _ _ _ hlen, Nat.zero_add,
    sealRequest_packet w h2 h4]
  rfl

theorem frameOf_drop (w : Wire) {i : ℕ} (h : 4 < i) (hi : i ≤ w.requestLen.toNat) :
    (frameOf w).drop i = slice w.packet i (w.requestLen.toNat - i) := by
  have hlen : (sealRequest w).len = w.requestLen.toNat := by simp [sealRequest, Wire.len]
  rw [frameOf, hlen, drop_slice _ _ _ _ hi, Nat.zero_add]
  exact slice_congr fun j _ => sealRequest_packet w (by omega) (by omega)

/-- The 32-bit stream offset of an owner. -/
def Owner.offset (o : Owner) : ℕ := le [o.offset0, o.offset1, o.offset2, o.offset3]

/-- `session_packet` and the request it leaves. -/
structure SessionBuilt (a : Byte) (o : Owner) (p : Wire) : Prop where
  command : p.packet 1 = a
  handle : (p.packet 7, p.packet 8) = o.handle
  offset : le (slice p.packet 9 4) = o.offset
  count : p.packet 13 = 0 ∧ p.packet 14 = 0
  len : p.requestLen = 9

theorem sessionFields_built {a : Byte} (o : Owner) {p : Wire} (h : Blank a p) :
    SessionBuilt a o (sessionFields o p) where
  command := h.packetCommand
  handle := rfl
  offset := rfl
  count := ⟨h.zero 13 (by decide) (by decide) (by decide) (by decide),
    h.zero 14 (by decide) (by decide) (by decide) (by decide)⟩
  len := rfl

/-- `session_packet` changes nothing but the transport; with carry clear it
leaves a request for the session. -/
theorem sessionPacket_spec (a : Byte) (w : Ram) :
    ∃ p, (sessionPacket a w).2 = w.setWire p ∧ Logs w.wire p [] [] ∧
      ((sessionPacket a w).1 = false → SessionBuilt a w.owner p) := by
  have hl := beginPacket_logs a w.wire
  obtain ⟨-, hc⟩ := beginPacket_moves a w.wire
  simp only [sessionPacket]
  split_ifs with h
  · exact ⟨_, rfl, hl, by simp⟩
  · exact ⟨_, rfl, hl.quiet (.same rfl), fun _ => sessionFields_built _ (hc (by simpa using h)).2⟩

/-- `exchange` as the operations see it. -/
theorem transfer_spec (w : Ram) :
    ∃ p, (transfer w).2 = w.setWire p ∧
      Logs w.wire p [(frameOf w.wire, if (transfer w).1 then none else some (replyOf p))] [] ∧
      ((transfer w).1 = false → Accepted p) :=
  ⟨_, rfl, exchange_spec w.wire⟩

/-! ### Responses -/

theorem Accepted.payloadOf {w : Wire} (h : Accepted w) :
    payloadOf (replyOf w) = slice w.packet w.payload.toNat w.payloadLen.toNat := by
  have hpos : 6 ≤ w.payload.toNat := by
    rcases h.payload with ⟨-, hy⟩ | ⟨-, hy⟩ <;> simp [hy]
  have hdesc : (replyOf w).getD 5 0 = w.packet 5 := by
    have := h.total
    rw [List.getD_eq_getElem?_getD, replyOf, getElem?_slice _ _ _ _ (by omega)]
    rfl
  have hdrop : (if (replyOf w).getD 5 0 = 0 then 6 else 7) = w.payload.toNat := by
    rw [hdesc]
    rcases h.payload with ⟨h5, hy⟩ | ⟨h5, hy⟩
    · rw [if_pos h5, hy]
      rfl
    · rw [if_neg h5, hy]
      rfl
  have htotal := h.total
  rw [Resident.payloadOf, hdrop, replyOf, drop_slice _ _ _ _ (by omega), Nat.zero_add]
  congr 1
  omega

theorem Accepted.length_payload {w : Wire} (h : Accepted w) :
    (Resident.payloadOf (replyOf w)).length = w.payloadLen.toNat := by
  rw [h.payloadOf, length_slice]

theorem Accepted.payload_getD {w : Wire} (h : Accepted w) {i : ℕ} (hi : i < w.payloadLen.toNat) :
    (Resident.payloadOf (replyOf w)).getD i 0 = w.packet (i + w.payload.toNat) := by
  rw [h.payloadOf, List.getD_eq_getElem?_getD, getElem?_slice _ _ _ _ hi, Nat.add_comm]
  rfl

/-- `check_rw` rejects what `rwCount` rejects. -/
theorem rwBad_eq_false {w : Ram} (h : Accepted w.wire) :
    rwBad w = false ↔
      12 ≤ (Resident.payloadOf (replyOf w.wire)).length ∧
        ((Resident.payloadOf (replyOf w.wire)).getD 4 0, (Resident.payloadOf (replyOf w.wire)).getD 5 0) =
          w.owner.handle ∧
        (Resident.payloadOf (replyOf w.wire)).getD 11 0 = 0 ∧
        (Resident.payloadOf (replyOf w.wire)).getD 10 0 < 129 := by
  have hlen : w.wire.payloadLen < 12 ↔ ¬12 ≤ w.wire.payloadLen.toNat := by bv_omega
  simp only [rwBad, Bool.or_eq_false_iff, decide_eq_false_iff_not, bne_eq_false_iff_eq,
    Bool.not_eq_false', decide_eq_true_eq, hlen, not_not, h.length_payload, and_assoc, Prod.ext_iff]
  refine and_congr_right fun hl => ?_
  rw [h.payload_getD (i := 4) (by omega), h.payload_getD (i := 5) (by omega),
    h.payload_getD (i := 10) (by omega), h.payload_getD (i := 11) (by omega)]

/-- `check_rw` reads the response as `rwCount` does. -/
theorem checkRw_eq {w : Ram} (h : Accepted w.wire) :
    checkRw w =
      match rwCount w.owner.handle (replyOf w.wire) with
      | none => (true, w)
      | some n => (false, w.setCount n) := by
  have hbad := rwBad_eq_false h
  simp only [checkRw, rwCount]
  cases hb : rwBad w
  · have hok := hbad.1 hb
    have hl := hok.1
    rw [h.length_payload] at hl
    rw [if_neg (by simp), if_pos hok, h.payload_getD (by omega)]
  · rw [if_pos rfl, if_neg fun hok => by simp [hbad.2 hok] at hb]

end NioApps.Resident
