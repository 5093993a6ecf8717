import NioApps.Lib.Transaction
import NioApps.Spec.Wire

/-! What each transport routine does to `outstanding` and to the event log. The
events are read as moves of a transaction host (`Event.turn`); `receive_cases`
lists the ways `receive` can end, and the later results only use those. -/

namespace NioApps.Resident

open Transaction

/-- The state a P reports in its first byte; bytes 1 and 2 hold the length. -/
def report : List Byte → Report
  | [] => .busy
  | b :: rest => if b = 0 then .idle else if b = 2 then .ready (le (rest.take 2)) else .busy

theorem report_ne_idle {b : Byte} (h : b ≠ 0) (rest : List Byte) : report (b :: rest) ≠ .idle := by
  simp only [report, h, if_false]
  split_ifs <;> simp

/-- An event as a move of the host: requests and answers are byte lists. -/
def Event.turn : Event → Option (Ev (List Byte) (List Byte))
  | .sio dcb status bytes =>
    if dcb.command = cmdW then some (.send bytes (status == 1))
    else if dcb.command = cmdP then some (.poll (if status = 1 then some (report bytes) else none))
    else if dcb.command = cmdR then some (.fetch (if status = 1 then some bytes else none))
    else none
  | .exchange frame reply => some (.done frame reply)
  | .store _ => none

/-- The moves among the events `es`. -/
def turns (es : List Event) : List (Ev (List Byte) (List Byte)) := es.filterMap Event.turn

@[simp] theorem turns_nil : turns [] = [] := rfl

@[simp] theorem turns_append (es fs : List Event) : turns (es ++ fs) = turns es ++ turns fs :=
  List.filterMap_append

@[simp] theorem turns_store (b : Byte) : turns [.store b] = [] := rfl

@[simp] theorem turns_exchange (frame : List Byte) (reply : Option (List Byte)) :
    turns [.exchange frame reply] = [.done frame reply] := rfl

/-- Fields that neither SIO nor `receive` touches. -/
structure SameRequest (w w' : Wire) : Prop where
  command : w'.command = w.command
  requestLen : w'.requestLen = w.requestLen

theorem SameRequest.trans {w₁ w₂ w₃ : Wire} (h : SameRequest w₁ w₂) (h' : SameRequest w₂ w₃) :
    SameRequest w₁ w₃ :=
  ⟨h'.command.trans h.command, h'.requestLen.trans h.requestLen⟩

/-! ### sio -/

/-- The event one SIO call records. -/
def sioEvent (a : Byte) (w : Wire) : Event :=
  .sio (dcbOf a w) (w.results 0).status (slice (sioPacket a w) 0 w.len)

@[simp] theorem sio_log (a : Byte) (w : Wire) : (sio a w).2.log = w.log ++ [sioEvent a w] := rfl

@[simp] theorem sio_outstanding (a : Byte) (w : Wire) : (sio a w).2.outstanding = w.outstanding := rfl

@[simp] theorem sio_command (a : Byte) (w : Wire) : (sio a w).2.command = w.command := rfl

@[simp] theorem sio_packet (a : Byte) (w : Wire) : (sio a w).2.packet = sioPacket a w := rfl

@[simp] theorem sio_len (a : Byte) (w : Wire) : (sio a w).2.len = w.len := rfl

theorem sio_fst (a : Byte) (w : Wire) : (sio a w).1 = true ↔ (w.results 0).status = 1 := by
  simp [sio]

theorem turn_write (w : Wire) :
    (sioEvent cmdW w).turn = some (.send (slice w.packet 0 w.len) (sio cmdW w).1) := rfl

theorem turn_poll (w : Wire) :
    (sioEvent cmdP w).turn =
      some (.poll (if (sio cmdP w).1 then some (report (slice (sio cmdP w).2.packet 0 w.len)) else none)) := by
  have : ¬cmdP = cmdW := by decide
  simp [sioEvent, Event.turn, dcbOf, this, sio]

theorem turn_read (w : Wire) :
    (sioEvent cmdR w).turn =
      some (.fetch (if (sio cmdR w).1 then some (slice (sio cmdR w).2.packet 0 w.len) else none)) := by
  have hw : ¬cmdR = cmdW := by decide
  have hp : ¬cmdR = cmdP := by decide
  simp [sioEvent, Event.turn, dcbOf, hw, hp, sio]

/-! ### receive -/

/-- The ways `receive` ends after the polls `rs`: it gave up without an R, saw
the device idle, had its R fail, or read a response. -/
inductive Receipt (w w' : Wire) : Bool → List (Ev (List Byte) (List Byte)) → Prop
  | gaveUp : w'.outstanding = w.outstanding → Receipt w w' true []
  | idle : w'.outstanding = 0 → Receipt w w' true [.poll (some .idle)]
  | readFailed : w'.outstanding = w.outstanding → Receipt w w' true [.fetch none]
  | read : w'.outstanding = 0 → Receipt w w' false [.fetch (some (slice w'.packet 0 w'.len))]

/-- `receive` is at most `n` polls that do not report idle, and then one end. -/
structure Receives (n : ℕ) (w : Wire) (c : Bool) (w' : Wire) : Prop where
  same : SameRequest w w'
  events : ∃ (es : List Event) (rs : List (Option Report)) (tail : List (Ev (List Byte) (List Byte))), w'.log = w.log ++ es ∧ rs.length ≤ n ∧ (∀ r ∈ rs, r ≠ some Report.idle) ∧
    turns es = rs.map .poll ++ tail ∧ Receipt w w' c tail

theorem Receives.poll {n : ℕ} {w w₁ w' : Wire} {c : Bool} {e : Event} {r : Option Report}
    (hs : SameRequest w w₁) (hlog : w₁.log = w.log ++ [e]) (hout : w₁.outstanding = w.outstanding)
    (he : e.turn = some (.poll r)) (hr : r ≠ some .idle) (h : Receives n w₁ c w') :
    Receives (n + 1) w c w' := by
  obtain ⟨es, rs, tail, hlog', hlen, hrs, hturns, hend⟩ := h.events
  refine ⟨hs.trans h.same, e :: es, r :: rs, tail, ?_, by simpa using hlen, ?_, ?_, ?_⟩
  · rw [hlog', hlog, List.append_assoc, List.singleton_append]
  · simpa using ⟨hr, hrs⟩
  · simpa [turns, he] using hturns
  · cases hend with
    | gaveUp ho => exact .gaveUp (ho.trans hout)
    | idle ho => exact .idle ho
    | readFailed ho => exact .readFailed (ho.trans hout)
    | read ho => exact .read ho

theorem receives_gaveUp (n : ℕ) {w w' : Wire} (hs : SameRequest w w') (hlog : w'.log = w.log)
    (hout : w'.outstanding = w.outstanding) : Receives n w true w' :=
  ⟨hs, [], [], [], by simpa using hlog, by simp, by simp, rfl, .gaveUp hout⟩

theorem receives_end (n : ℕ) {w w' : Wire} {c : Bool} {e : Event} {t : Ev (List Byte) (List Byte)}
    (hs : SameRequest w w') (hlog : w'.log = w.log ++ [e]) (he : e.turn = some t)
    (hend : Receipt w w' c [t]) : Receives n w c w' :=
  ⟨hs, [e], [], [t], hlog, by simp, by simp, by simp [turns, he], hend⟩

theorem receiveReady_cases (n : ℕ) (w : Wire) :
    Receives n w (receiveReady w).1 (receiveReady w).2 := by
  unfold receiveReady wireBad
  extract_lets w₁
  split_ifs with hlong hzero
  · exact receives_gaveUp n ⟨rfl, rfl⟩ rfl rfl
  · exact receives_gaveUp n ⟨rfl, rfl⟩ rfl rfl
  · have hturn := turn_read (w₁.setLen (w₁.packet 1))
    dsimp only
    split_ifs with hz
    · rw [if_neg (by simpa using hz)] at hturn
      exact receives_end n ⟨rfl, rfl⟩ rfl hturn (.readFailed rfl)
    · rw [if_pos (by simpa using hz)] at hturn
      exact receives_end n ⟨rfl, rfl⟩ rfl hturn (.read rfl)

theorem receivePoll_cases (n : ℕ) (w : Wire) :
    Receives n w (receivePoll n w).1 (receivePoll n w).2 := by
  induction n generalizing w with
  | zero => exact receives_gaveUp 0 ⟨rfl, rfl⟩ rfl rfl
  | succ n ih =>
    simp only [receivePoll]
    have hturn := turn_poll ((w.setLen 3).setHi 0)
    have hsame : SameRequest w (sio cmdP ((w.setLen 3).setHi 0)).2 := ⟨rfl, rfl⟩
    have hbytes : slice (sio cmdP ((w.setLen 3).setHi 0)).2.packet 0 ((w.setLen 3).setHi 0).len =
        [(sio cmdP ((w.setLen 3).setHi 0)).2.packet 0, (sio cmdP ((w.setLen 3).setHi 0)).2.packet 1,
          (sio cmdP ((w.setLen 3).setHi 0)).2.packet 2] := rfl
    rw [hbytes] at hturn
    split_ifs with hz hidle hready
    · rw [if_neg (by simpa using hz)] at hturn
      exact (ih _).poll hsame rfl rfl hturn (by simp)
    · rw [if_pos (by simpa using hz)] at hturn
      simp only [report, hidle, if_true] at hturn
      exact receives_end _ ⟨rfl, rfl⟩ rfl hturn (.idle rfl)
    · rw [if_pos (by simpa using hz)] at hturn
      exact (receiveReady_cases n _).poll hsame rfl rfl hturn
        (by simpa using report_ne_idle hidle _)
    · rw [if_pos (by simpa using hz)] at hturn
      exact (ih _).poll hsame rfl rfl hturn (by simpa using report_ne_idle hidle _)

theorem receive_cases (w : Wire) : Receives 60 w (receive w).1 (receive w).2 := receivePoll_cases 60 w

/-! ### The moves of a transaction host -/

/-- What `outstanding` says between requests. -/
def Wire.host (w : Wire) : Host (List Byte) (List Byte) := if w.outstanding = 0 then .free else .owing

theorem Wire.host_free {w : Wire} (h : w.outstanding = 0) : w.host = .free := if_pos h

theorem Wire.host_owing {w : Wire} (h : w.outstanding ≠ 0) : w.host = .owing := if_neg h

/-- The events recorded between `w` and `w'` lead the host from `h` to `h'`. -/
def Moves (h : Host (List Byte) (List Byte)) (w : Wire) (h' : Host (List Byte) (List Byte))
    (w' : Wire) : Prop :=
  ∃ es, w'.log = w.log ++ es ∧ Host.Run h (turns es) h'

theorem Moves.refl (h : Host (List Byte) (List Byte)) {w w' : Wire} (hlog : w'.log = w.log) :
    Moves h w h w' :=
  ⟨[], by simpa using hlog, .nil h⟩

theorem Moves.trans {h₁ h₂ h₃ : Host (List Byte) (List Byte)} {w₁ w₂ w₃ : Wire}
    (h : Moves h₁ w₁ h₂ w₂) (h' : Moves h₂ w₂ h₃ w₃) : Moves h₁ w₁ h₃ w₃ := by
  obtain ⟨es, hlog, hrun⟩ := h
  obtain ⟨fs, hlog', hrun'⟩ := h'
  exact ⟨es ++ fs, by rw [hlog', hlog, List.append_assoc], by simpa using hrun.append hrun'⟩

theorem Moves.event {h h' : Host (List Byte) (List Byte)} {w w' : Wire} {e : Event}
    {t : Ev (List Byte) (List Byte)} (hlog : w'.log = w.log ++ [e]) (he : e.turn = some t)
    (hs : Host.Step h t h') : Moves h w h' w' :=
  ⟨[e], hlog, by simpa [turns, he] using Host.Run.single hs⟩

private theorem run_polls {h : Host (List Byte) (List Byte)} {rs : List (Option Report)}
    (hstep : ∀ r, r ≠ some .idle → Host.Step h (.poll r) h) (hrs : ∀ r ∈ rs, r ≠ some .idle) :
    Host.Run h (rs.map .poll) h := by
  induction rs with
  | nil => exact .nil h
  | cons r rs ih =>
    exact .cons (hstep r (hrs r List.mem_cons_self)) (ih fun r' h' => hrs r' (List.mem_cons_of_mem _ h'))

/-- `receive` with an earlier request outstanding. -/
theorem Receives.drain {n : ℕ} {w w' : Wire} {c : Bool} (h : Receives n w c w')
    (hout : w.outstanding ≠ 0) :
    Moves .owing w w'.host w' ∧ (c = false → w'.outstanding = 0) := by
  obtain ⟨es, rs, tail, hlog, -, hrs, hturns, hend⟩ := h.events
  have hpolls := run_polls (h := .owing) (fun _ h => .drainPoll h) hrs
  have hmoves : ∀ h', Host.Run .owing tail h' → Moves .owing w h' w' := fun h' hr =>
    ⟨es, hlog, by rw [hturns]; exact hpolls.append hr⟩
  cases hend with
  | gaveUp ho =>
    rw [Wire.host_owing (ho ▸ hout)]
    exact ⟨hmoves _ (.nil _), by simp⟩
  | idle ho =>
    rw [Wire.host_free ho]
    exact ⟨hmoves _ (.single .drainIdle), by simp⟩
  | readFailed ho =>
    rw [Wire.host_owing (ho ▸ hout)]
    exact ⟨hmoves _ (.single .drainFailed), by simp⟩
  | read ho =>
    rw [Wire.host_free ho]
    exact ⟨hmoves _ (.single (.drainFetch _)), fun _ => ho⟩

/-- `receive` after sending the request `q`. -/
theorem Receives.answer {n : ℕ} {w w' : Wire} {c : Bool} (q : List Byte) (h : Receives n w c w') :
    c = true ∧ Moves (.sent q) w (.sent q) w' ∧ w'.outstanding = w.outstanding ∨
    c = true ∧ Moves (.sent q) w (.lost q) w' ∧ w'.outstanding = 0 ∨
    c = false ∧ Moves (.sent q) w (.got q (slice w'.packet 0 w'.len)) w' ∧ w'.outstanding = 0 := by
  obtain ⟨es, rs, tail, hlog, -, hrs, hturns, hend⟩ := h.events
  have hpolls := run_polls (h := .sent q) (fun _ h => .poll q h) hrs
  have hmoves : ∀ h', Host.Run (.sent q) tail h' → Moves (.sent q) w h' w' := fun h' hr =>
    ⟨es, hlog, by rw [hturns]; exact hpolls.append hr⟩
  cases hend with
  | gaveUp ho => exact .inl ⟨rfl, hmoves _ (.nil _), ho⟩
  | idle ho => exact .inr (.inl ⟨rfl, hmoves _ (.single (.idle q)), ho⟩)
  | readFailed ho => exact .inl ⟨rfl, hmoves _ (.single (.fetchFailed q)), ho⟩
  | read ho => exact .inr (.inr ⟨rfl, hmoves _ (.single (.fetch q _)), ho⟩)

/-! ### begin_packet -/

/-- The first 160 bytes of a request with command `a` before its fields are set. -/
structure Blank (a : Byte) (w : Wire) : Prop where
  command : w.command = a
  device : w.packet 0 = 0xfd
  packetCommand : w.packet 1 = a
  version : w.packet 6 = 1
  zero : ∀ i < packetMax, i ≠ 0 → i ≠ 1 → i ≠ 6 → w.packet i = 0

theorem clearPacket_blank {a : Byte} {w : Wire} (h : w.command = a) : Blank a (clearPacket w) where
  command := h
  device := rfl
  packetCommand := h
  version := rfl
  zero i hi h0 h1 h6 := by simp [clearPacket, hi, h0, h1, h6]

/-- `begin_packet` drains what is outstanding; when it returns with carry clear
nothing is, and the request is blank. -/
theorem beginPacket_moves (a : Byte) (w : Wire) :
    Moves w.host w (beginPacket a w).2.host (beginPacket a w).2 ∧
      ((beginPacket a w).1 = false →
        (beginPacket a w).2.outstanding = 0 ∧ Blank a (beginPacket a w).2) := by
  simp only [beginPacket, Wire.setCommand_outstanding]
  by_cases ho : w.outstanding = 0
  · simp only [ho, if_true]
    exact ⟨.refl _ rfl, fun _ => ⟨ho, clearPacket_blank rfl⟩⟩
  · have hr := receive_cases (w.setCommand a)
    obtain ⟨hm, hc⟩ := hr.drain ho
    have hcmd : (receive (w.setCommand a)).2.command = a := hr.same.command
    have hw : w.host = .owing := Wire.host_owing ho
    have hm' : Moves .owing w (receive (w.setCommand a)).2.host (receive (w.setCommand a)).2 := hm
    simp only [ho, if_false, hw]
    split_ifs with hcarry hout
    · exact ⟨hm'.trans (.refl _ rfl), fun _ => ⟨hc (by simpa using hcarry), clearPacket_blank hcmd⟩⟩
    · exact ⟨hm', by simp⟩
    · exact ⟨hm'.trans (.refl _ rfl), fun _ => ⟨by simpa [clearPacket] using hout, clearPacket_blank hcmd⟩⟩

/-! ### exchange -/

/-- Where an accepted response has its payload: after one descriptor byte, or two. -/
structure Accepted (w : Wire) : Prop where
  hi : w.wireHi = 0
  short : w.wireLen.toNat ≤ packetMax
  payload : w.packet 5 = 0 ∧ w.payload = 6 ∨ w.packet 5 ≠ 0 ∧ w.payload = 7
  total : w.payload.toNat + w.payloadLen.toNat = w.wireLen.toNat

/-- The checks on a payload set nothing but `payload` and `payload_len`. -/
theorem replyPayload_snd (y : Byte) (w : Wire) :
    ∃ n, (replyPayload y w).2 = (w.setPayload y).setPayloadLen n := by
  unfold replyPayload wireBad
  extract_lets w₁ w₂
  refine ⟨if w₁.wireLen < w₁.payload then w.payloadLen else w₁.wireLen - w₁.payload, ?_⟩
  split_ifs <;> rfl

theorem checkReply_snd (w : Wire) : ∃ y n, (checkReply w).2 = (w.setPayload y).setPayloadLen n := by
  have hsame : ∃ y n, w = (w.setPayload y).setPayloadLen n := ⟨w.payload, w.payloadLen, rfl⟩
  unfold checkReply wireBad
  split_ifs
  · exact hsame
  · exact ⟨6, replyPayload_snd 6 w⟩
  · exact hsame
  · exact hsame
  · exact ⟨7, replyPayload_snd 7 w⟩

theorem replyPayload_accepted {y : Byte} {w : Wire} (h : (replyPayload y w).1 = false) :
    (replyPayload y w).2.payload = y ∧
      y.toNat + (replyPayload y w).2.payloadLen.toNat = w.wireLen.toNat := by
  revert h
  unfold replyPayload wireBad
  extract_lets w₁ w₂
  split_ifs with hlt
  · simp
  all_goals
    have hlen : y.toNat + (w.wireLen - y).toNat = w.wireLen.toNat := by
      have : ¬w.wireLen < y := hlt
      bv_omega
    exact fun _ => ⟨rfl, hlen⟩

theorem headerBad_eq_false {w : Wire} (h : ¬headerBad w = true) :
    w.wireHi = 0 ∧ w.wireLen.toNat ≤ packetMax ∧ w.packet 1 = w.command := by
  simp only [headerBad, Bool.or_eq_true, not_or] at h
  obtain ⟨⟨⟨⟨⟨⟨⟨hhi, -⟩, hlen⟩, -⟩, hcmd⟩, -⟩, -⟩, -⟩ := h
  have hlt : w.wireLen < 161 := by simpa using hlen
  refine ⟨by simpa using hhi, ?_, by simpa using hcmd⟩
  simp only [packetMax]
  bv_omega

theorem checkReply_accepted {w : Wire} (h : (checkReply w).1 = false) : Accepted (checkReply w).2 := by
  revert h
  unfold checkReply wireBad
  split_ifs with hhead h5 h51 h6
  · simp
  · intro h
    obtain ⟨hhi, hlen, -⟩ := headerBad_eq_false hhead
    obtain ⟨n, hn⟩ := replyPayload_snd 6 w
    obtain ⟨hy, ht⟩ := replyPayload_accepted h
    rw [hn] at hy ht ⊢
    exact ⟨hhi, hlen, .inl ⟨h5, hy⟩, ht⟩
  · simp
  · simp
  · intro h
    obtain ⟨hhi, hlen, -⟩ := headerBad_eq_false hhead
    obtain ⟨n, hn⟩ := replyPayload_snd 7 w
    obtain ⟨hy, ht⟩ := replyPayload_accepted h
    rw [hn] at hy ht ⊢
    exact ⟨hhi, hlen, .inr ⟨h5, hy⟩, ht⟩

theorem checksumLoop_congr {b c : ℕ → Byte} {n x : ℕ} {a : Byte} (h : ∀ i, x ≤ i → i < x + n → i ≠ 4 → b i = c i) :
    checksumLoop b n x a = checksumLoop c n x a := by
  induction n generalizing x a with
  | zero => rfl
  | succ n ih =>
    have hx : (if x = 4 then a else addAround a (b x)) = if x = 4 then a else addAround a (c x) := by
      split_ifs with h4
      · rfl
      · rw [h x le_rfl (by omega) h4]
    rw [checksumLoop, checksumLoop, hx, ih fun i hi hlt => h i (by omega) (by omega)]

/-- The bytes `exchange` sends. -/
def frameOf (w : Wire) : List Byte := slice (sealRequest w).packet 0 (sealRequest w).len

/-- The ways a transaction for the request `q` ends before it is reported done. -/
inductive Ends (q : List Byte) : Bool → Wire → Host (List Byte) (List Byte) → Prop
  | uncertain {w : Wire} : w.outstanding ≠ 0 → Ends q true w (.sent q)
  | idle {w : Wire} : w.outstanding = 0 → Ends q true w (.lost q)
  | rejected {w : Wire} (a : List Byte) : w.outstanding = 0 → Ends q true w (.got q a)
  | accepted {w : Wire} : w.outstanding = 0 → Accepted w →
      Ends q false w (.got q (slice w.packet 0 w.wireLen.toNat))

theorem checkReply_ends (q : List Byte) {w : Wire} (ho : w.outstanding = 0) :
    Ends q (checkReply w).1 (checkReply w).2 (.got q (slice w.packet 0 w.len)) := by
  obtain ⟨y, n, hsnd⟩ := checkReply_snd w
  have hout : (checkReply w).2.outstanding = 0 := by
    rw [hsnd]
    exact ho
  cases hcheck : (checkReply w).1
  · have hacc := checkReply_accepted hcheck
    have hhi : w.wireHi = 0 := by
      have := hacc.hi
      rwa [hsnd] at this
    have hreply : slice w.packet 0 w.len =
        slice (checkReply w).2.packet 0 (checkReply w).2.wireLen.toNat := by
      have hlen : w.len = w.wireLen.toNat := by simp [Wire.len, hhi]
      rw [hsnd, hlen]
      rfl
    rw [hreply]
    exact .accepted hout hacc
  · exact .rejected _ hout

theorem transact_moves (w : Wire) :
    ∃ h, Moves .free w h (transact w).2 ∧ Ends (frameOf w) (transact w).1 (transact w).2 h := by
  have hsent : Moves .free w (.sent (frameOf w)) (sio cmdW (sealRequest w)).2 :=
    .event rfl (turn_write (sealRequest w)) (.send _ _)
  have hout : (sio cmdW (sealRequest w)).2.outstanding ≠ 0 := by simp [sealRequest]
  have hrecv := (receive_cases (sio cmdW (sealRequest w)).2).answer (frameOf w)
  simp only [transact, wireBad]
  generalize sio cmdW (sealRequest w) = r at hsent hout hrecv ⊢
  split_ifs with hz hc
  · exact ⟨_, hsent, .uncertain hout⟩
  · rcases hrecv with ⟨-, hm, ho⟩ | ⟨-, hm, ho⟩ | ⟨hf, -, -⟩
    · exact ⟨_, hsent.trans hm, .uncertain (ho ▸ hout)⟩
    · exact ⟨_, hsent.trans hm, .idle ho⟩
    · exact absurd hc (by simp [hf])
  · rcases hrecv with ⟨ht, -⟩ | ⟨ht, -⟩ | ⟨-, hm, ho⟩
    · exact absurd ht hc
    · exact absurd ht hc
    · obtain ⟨y, n, hsnd⟩ := checkReply_snd (receive r.2).2
      refine ⟨_, (hsent.trans hm).trans (.refl _ ?_), checkReply_ends _ ho⟩
      rw [hsnd]
      rfl

theorem exchange_moves (w : Wire) : Moves .free w (exchange w).2.host (exchange w).2 := by
  obtain ⟨h, hm, hend⟩ := transact_moves w
  simp only [exchange]
  generalize (transact w) = r at hm hend
  obtain ⟨c, w'⟩ := r
  refine hm.trans ?_
  cases hend with
  | uncertain ho =>
    rw [Wire.host_owing (by simpa using ho)]
    exact .event rfl rfl (.giveUp _)
  | idle ho =>
    rw [Wire.host_free (by simpa using ho)]
    exact .event rfl rfl (.fail _)
  | rejected a ho =>
    rw [Wire.host_free (by simpa using ho)]
    exact .event rfl rfl (.reject _ a)
  | accepted ho hacc =>
    rw [Wire.host_free (by simpa using ho)]
    exact .event rfl rfl (.accept _ _)

end NioApps.Resident
