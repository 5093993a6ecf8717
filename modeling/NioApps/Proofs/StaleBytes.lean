import NioApps.Sanity.Twins
import NioApps.Sanity.Calls
import NioApps.Sanity.Prompt

/-! Bytes left in the packet buffer by an earlier packet have no effect. Two runs of an
operation from equal owner records, caches and outstanding flag, with the same results
of the SIO calls and arbitrary contents of the buffer, cause the same events and end
with the same result and the same records, caches and outstanding flag. -/

namespace NioApps.Resident

/-- Equal but for the transport variables and `count`. -/
structure Same (w w' : Ram) : Prop where
  owners : w.owners = w'.owners
  caches : w.caches = w'.caches
  busy : w.busy = w'.busy
  callerA : w.callerA = w'.callerA
  callerX : w.callerX = w'.callerX
  ptr : w.ptr = w'.ptr
  slot : w.slot = w'.slot
  wire : Low w.wire w'.wire

/-- Two outcomes of a step that fail together. -/
structure Steps (ok : Ram → Ram → Prop) (r r' : Bool × Ram) : Prop where
  failed : r.1 = r'.1
  same : Same r.2 r'.2
  done : r.1 = false → ok r.2 r'.2

/-- Two outcomes of an operation with one code. -/
structure Finishes {β : Type} (r r' : β × Ram) : Prop where
  code : r.1 = r'.1
  same : Same r.2 r'.2

theorem Steps.split {ok : Ram → Ram → Prop} {r r' : Bool × Ram} (h : Steps ok r r') :
    (∃ v v', r = (true, v) ∧ r' = (true, v') ∧ Same v v') ∨
      ∃ v v', r = (false, v) ∧ r' = (false, v') ∧ Same v v' ∧ ok v v' := by
  obtain ⟨c, v⟩ := r
  obtain ⟨c', v'⟩ := r'
  obtain ⟨rfl, hsame, hdone⟩ : c = c' ∧ Same v v' ∧ (c = false → ok v v') := ⟨h.failed, h.same, h.done⟩
  cases c with
  | true => exact .inl ⟨v, v', rfl, rfl, hsame⟩
  | false => exact .inr ⟨v, v', rfl, rfl, hsame, hdone rfl⟩

theorem Finishes.split {β : Type} {r r' : β × Ram} (h : Finishes r r') : ∃ y v v', r = (y, v) ∧ r' = (y, v') ∧ Same v v' :=
  ⟨r.1, r.2, r'.2, rfl, Prod.ext h.code.symm rfl, h.same⟩

namespace Same

variable {w w' : Ram}

theorem owner (h : Same w w') : w.owner = w'.owner := by rw [Ram.owner, Ram.owner, h.owners, h.slot]

theorem setOwner (h : Same w w') {o o' : Owner} (ho : o = o') : Same (w.setOwner o) (w'.setOwner o') where
  owners := by
    dsimp only [Ram.setOwner]
    rw [h.owners, h.slot, ho]
  caches := h.caches
  busy := h.busy
  callerA := h.callerA
  callerX := h.callerX
  ptr := h.ptr
  slot := h.slot
  wire := h.wire

theorem setCaches (h : Same w w') {c c' : Byte → Byte} (hc : c = c') : Same (w.setCaches c) (w'.setCaches c') :=
  ⟨h.owners, hc, h.busy, h.callerA, h.callerX, h.ptr, h.slot, h.wire⟩

theorem setWire (h : Same w w') {p p' : Wire} (hp : Low p p') : Same (w.setWire p) (w'.setWire p') :=
  ⟨h.owners, h.caches, h.busy, h.callerA, h.callerX, h.ptr, h.slot, hp⟩

theorem setCount (h : Same w w') (n n' : Byte) : Same (w.setCount n) (w'.setCount n') :=
  ⟨h.owners, h.caches, h.busy, h.callerA, h.callerX, h.ptr, h.slot, h.wire⟩

theorem setCaller (h : Same w w') {a a' : Byte} (ha : a = a') :
    Same (w.setCaller a w.callerX) (w'.setCaller a' w'.callerX) :=
  ⟨h.owners, h.caches, h.busy, ha, h.callerX, h.ptr, h.slot, h.wire⟩

theorem setPtr (h : Same w w') {zp zp' : Byte × Byte} (hp : zp = zp') : Same (w.setPtr zp) (w'.setPtr zp') :=
  ⟨h.owners, h.caches, h.busy, h.callerA, h.callerX, hp, h.slot, h.wire⟩

theorem cacheIndex (h : Same w w') : Resident.cacheIndex w = Resident.cacheIndex w' := by
  rw [Resident.cacheIndex, Resident.cacheIndex, h.owner, h.slot]

theorem finishes {β : Type} (h : Same w w') (y : β) : Finishes (y, w) (y, w') := ⟨rfl, h⟩

end Same

/-! ### Requests and responses -/

/-- A request whose length is not above the cleared part. -/
theorem built_of_cleared {p p' : Wire} {n : Byte} (ht : Tuned p p') (hc : Cleared p p') (h0 : n ≠ 0)
    (hn : n.toNat ≤ packetMax) : Built (p.setRequestLen n) (p'.setRequestLen n) where
  outstanding := ht.outstanding
  results := ht.results
  log := ht.log
  command := ht.command
  requestLen := rfl
  bytes := fun i hi => hc i (by
    rw [Wire.setRequestLen_requestLen, span, if_neg h0] at hi
    omega)

/-- A request for the session of the owner. -/
structure Begun (w w' : Ram) : Prop where
  tuned : Tuned w.wire w'.wire
  cleared : Cleared w.wire w'.wire
  requestLen : w.wire.requestLen = 9 ∧ w'.wire.requestLen = 9

theorem poke_cleared {p p' : Wire} (h : Cleared p p') (i : ℕ) {b b' : Byte} (hb : b = b') : Cleared (p.poke i b) (p'.poke i b') :=
  update_congr hb h

theorem sessionPacket_steps (a : Byte) {w w' : Ram} (h : Same w w') :
    Steps Begun (sessionPacket a w) (sessionPacket a w') := by
  have hbegin := beginPacket_twin a h.wire
  rw [sessionPacket, sessionPacket]
  by_cases hc : (beginPacket a w.wire).1 = true
  · have hc' := hc
    rw [hbegin.failed] at hc'
    dsimp only
    rw [if_pos hc, if_pos hc']
    exact ⟨rfl, h.setWire hbegin.tuned.toLow, fun hf => by cases hf⟩
  · have hc' := hc
    rw [hbegin.failed] at hc'
    dsimp only
    rw [if_neg hc, if_neg hc', h.owner]
    have hcl := hbegin.done (Bool.eq_false_iff.2 hc)
    have ht := hbegin.tuned
    have hlow : Low (sessionFields w'.owner (beginPacket a w.wire).2) (sessionFields w'.owner (beginPacket a w'.wire).2) :=
      ⟨ht.outstanding, ht.results, ht.log⟩
    refine ⟨rfl, h.setWire hlow, fun _ => ⟨⟨hlow, ht.command⟩, ?_, rfl, rfl⟩⟩
    exact poke_cleared (poke_cleared (poke_cleared (poke_cleared (poke_cleared (poke_cleared hcl 7 rfl) 8 rfl) 9 rfl)
      10 rfl) 11 rfl) 12 rfl

/-- An accepted response in both buffers. -/
structure Answered (w w' : Ram) : Prop where
  taken : Taken w.wire w'.wire
  accepted : Accepted w.wire

theorem transfer_steps {w w' : Ram} (h : Same w w') (hb : Built w.wire w'.wire) : Steps Answered (transfer w) (transfer w') := by
  have ht := exchange_twin hb
  refine ⟨ht.failed, h.setWire ht.tuned.toLow, fun hc => ⟨ht.done hc, (exchange_spec w.wire).2 hc⟩⟩

/-- The bytes of the payload. -/
theorem Answered.bytes {w w' : Ram} (h : Answered w w') {i : ℕ} (hi : i < w.wire.payload.toNat + w.wire.payloadLen.toNat) :
    w.wire.packet i = w'.wire.packet i := by
  have htotal := h.accepted.total
  refine h.taken.bytes i ?_
  rw [Wire.len]
  omega

theorem Answered.accepted' {w w' : Ram} (h : Answered w w') : Accepted w'.wire := by
  have hacc := h.accepted
  have ht := h.taken
  have hpos : 6 ≤ w.wire.payload.toNat := by rcases hacc.payload with ⟨-, hy⟩ | ⟨-, hy⟩ <;> simp [hy]
  have h5 := h.bytes (i := 5) (by omega)
  exact {
    hi := ht.wireHi ▸ hacc.hi
    short := ht.wireLen ▸ hacc.short
    payload := by
      rw [← h5, ← ht.payload]
      exact hacc.payload
    total := by
      rw [← ht.payload, ← ht.payloadLen, ← ht.wireLen]
      exact hacc.total }

theorem Answered.replyOf_eq {w w' : Ram} (h : Answered w w') : replyOf w.wire = replyOf w'.wire := by
  rw [replyOf, replyOf, ← h.taken.wireLen]
  refine slice_congr fun j hj => h.taken.bytes _ ?_
  rw [Wire.len]
  omega

theorem checkRw_steps {w w' : Ram} (h : Same w w') (ha : Answered w w') :
    Steps (fun v v' => Answered v v' ∧ v.count = v'.count ∧ 12 ≤ v.wire.payloadLen.toNat) (checkRw w) (checkRw w') := by
  rw [checkRw_eq ha.accepted, checkRw_eq ha.accepted', ← ha.replyOf_eq, ← h.owner]
  cases hn : rwCount w.owner.handle (replyOf w.wire) with
  | none => exact ⟨rfl, h, fun hf => by cases hf⟩
  | some n =>
    refine ⟨rfl, h.setCount n n, fun _ => ⟨⟨ha.taken, ha.accepted⟩, rfl, ?_⟩⟩
    rw [rwCount] at hn
    split_ifs at hn with hok
    have hlen := hok.1
    rw [ha.accepted.length_payload] at hlen
    exact hlen

/-! ### Writing -/

theorem writeError_finishes {w w' : Ram} (h : Same w w') : Finishes (writeError w) (writeError w') := by
  rw [writeError, writeError, h.owner]
  exact (h.setOwner rfl).finishes _

/-- The WRITE request: behind the cleared part all bytes come from the cache. -/
theorem writeRequest_built {w w' : Ram} (h : Same w w') (hb : Begun w w') :
    Same (writeRequest w) (writeRequest w') ∧ Built (writeRequest w).wire (writeRequest w').wire := by
  have ht := hb.tuned
  have howner := h.owner
  have hlow : Low ((w.wire.poke 13 w.owner.len).setRequestLen (w.owner.len + 15))
      ((w'.wire.poke 13 w'.owner.len).setRequestLen (w'.owner.len + 15)) := ⟨ht.outstanding, ht.results, ht.log⟩
  have h₁ := (h.setWire hlow).setOwner (congrArg (fun o : Owner => { o with pos := 0 }) howner)
  have hpoke := poke_cleared hb.cleared 13 (rfl : w.owner.len = w.owner.len)
  refine ⟨h₁.setWire ⟨ht.outstanding, ht.results, ht.log⟩, ⟨⟨⟨ht.outstanding, ht.results, ht.log⟩, ht.command⟩, ?_, ?_⟩⟩
  · exact congrArg (fun o : Owner => o.len + 15) howner
  · intro i hi
    have hpacket : ∀ v : Ram, (writeRequest v).wire.packet = flushCopy v.caches
        (Function.update v.wire.packet 13 v.owner.len 13).toNat 0
        (cacheIndex ((v.setWire ((v.wire.poke 13 v.owner.len).setRequestLen (v.owner.len + 15))).setOwner
          { v.owner with pos := 0 })) (v.wire.poke 13 v.owner.len).packet := fun v => rfl
    rw [hpacket, hpacket, Function.update_self, Function.update_self, flushCopy_eq, flushCopy_eq, ← howner, h.caches,
      h₁.cacheIndex]
    dsimp only
    refine ite_rel (R := Eq) Iff.rfl (fun _ => by rw [howner]) fun hout => hpoke i ?_
    -- behind the copied bytes the request ends, or its length wraps into the cleared part
    have hspan : i < span (w.owner.len + 15) := hi
    have h15 : (15 : Byte).toNat = 15 := rfl
    have hsum : (w.owner.len + 15).toNat = (w.owner.len.toNat + 15) % 256 := BitVec.toNat_add ..
    have hlt := w.owner.len.isLt
    rw [span] at hspan
    rw [packetMax]
    split_ifs at hspan with h0
    · rw [h0] at hsum
      have h00 : (0 : Byte).toNat = 0 := rfl
      omega
    · omega

theorem keepSuffix_same {w w' : Ram} (h : Same w w') (hcount : w.count = w'.count) : Same (keepSuffix w) (keepSuffix w') := by
  have ho : addOffset w.count w.owner = addOffset w'.count w'.owner := by rw [hcount, h.owner]
  have h₁ := h.setOwner (show { addOffset w.count w.owner with len := (addOffset w.count w.owner).len - w.count } =
    { addOffset w'.count w'.owner with len := (addOffset w'.count w'.owner).len - w'.count } by rw [ho, hcount])
  rw [keepSuffix, keepSuffix]
  refine h₁.setCaches ?_
  rw [h₁.owner, h₁.slot, h₁.caches, Ram.setOwner_count, Ram.setOwner_count, hcount]

theorem flushLoop_finishes (n : ℕ) {w w' : Ram} (h : Same w w') : Finishes (flushLoop n w) (flushLoop n w') := by
  induction n generalizing w w' with
  | zero => exact writeError_finishes h
  | succ n ih =>
    rw [flushLoop, flushLoop]
    rcases (sessionPacket_steps 3 h).split with ⟨v, v', hr, hr', hv⟩ | ⟨v, v', hr, hr', hv, hb⟩
    · rw [hr, hr']
      exact writeError_finishes hv
    rw [hr, hr']
    obtain ⟨hw, hb⟩ := writeRequest_built hv hb
    rcases (transfer_steps hw hb).split with ⟨v, v', hr, hr', hv⟩ | ⟨v, v', hr, hr', hv, ha⟩
    · dsimp only
      rw [hr, hr']
      exact writeError_finishes hv
    dsimp only
    rw [hr, hr']
    rcases (checkRw_steps hv ha).split with ⟨v, v', hr, hr', hv⟩ | ⟨v, v', hr, hr', hv, -, hcount, -⟩
    · dsimp only
      rw [hr, hr']
      exact writeError_finishes hv
    dsimp only
    rw [hr, hr']
    simp only [Bool.false_eq_true, if_false]
    refine ite_rel (by rw [hcount, hv.owner]) (fun _ => ?_) fun _ => ?_
    · exact ite_rel (by rw [hcount]) (fun _ => writeError_finishes hv) fun _ => ih (keepSuffix_same hv hcount)
    · refine ite_rel (by rw [hcount, hv.owner]) (fun _ => writeError_finishes hv) fun _ => ?_
      exact (hv.setOwner (by rw [hcount, hv.owner])).finishes 1

theorem flush_finishes {w w' : Ram} (h : Same w w') : Finishes (flush w) (flush w') := by
  rw [flush, flush, h.owner]
  exact flushLoop_finishes _ h

theorem commit_finishes {w w' : Ram} (h : Same w w') : Finishes (commit w) (commit w') := by
  obtain ⟨y, v, v', hr, hr', hv⟩ := (flush_finishes h).split
  rw [commit, commit, hr, hr']
  exact ite_rel Iff.rfl (fun _ => hv.finishes y) fun _ => (hv.setOwner (by rw [hv.owner])).finishes y

theorem finishWrite_finishes {w w' : Ram} (h : Same w w') : Finishes (finishWrite w) (finishWrite w') := by
  have howner := h.owner
  rw [finishWrite, finishWrite]
  refine ite_rel (by rw [howner]) (fun _ => h.finishes _) fun _ => ?_
  refine ite_rel (by rw [howner]) (fun _ => h.finishes _) fun _ => ?_
  refine ite_rel (by rw [howner]) (fun _ => commit_finishes h) fun _ => ?_
  obtain ⟨y, v, v', hr, hr', hv⟩ := (flush_finishes h).split
  rw [hr, hr']
  exact ite_rel Iff.rfl (fun _ => hv.finishes y) fun _ => commit_finishes hv

theorem doPut_finishes {w w' : Ram} (h : Same w w') : Finishes (doPut w) (doPut w') := by
  have howner := h.owner
  rw [doPut, doPut]
  refine ite_rel (by rw [howner]) (fun _ => h.finishes _) fun _ => ?_
  refine ite_rel (by rw [howner]) (fun _ => h.finishes _) fun _ => ?_
  have h₁ := h.setOwner (show { w.owner with pos := w.owner.len } = { w'.owner with pos := w'.owner.len } by rw [howner])
  have hrec : Low (w.wire.record (.store w.callerA)) (w'.wire.record (.store w'.callerA)) :=
    ⟨h.wire.outstanding, h.wire.results, by rw [Wire.record_log, Wire.record_log, h.wire.log, h.callerA]⟩
  have hcaches : Function.update w.caches (cacheIndex (w.setOwner { w.owner with pos := w.owner.len })) w.callerA =
      Function.update w'.caches (cacheIndex (w'.setOwner { w'.owner with pos := w'.owner.len })) w'.callerA := by
    rw [h.caches, h₁.cacheIndex, h.callerA]
  have h₂ := (h₁.setCaches hcaches).setWire hrec
  have h₃ := h₂.setOwner (congrArg (fun o : Owner => { o with len := o.len + 1 }) h₂.owner)
  exact ite_rel (iff_of_eq (congrArg (fun o : Owner => o.len ≠ 128) h₃.owner)) (fun _ => h₃.finishes 1) fun _ =>
    flush_finishes h₃

/-! ### Reading -/

theorem getCached_finishes {w w' : Ram} (h : Same w w') : Finishes (getCached w) (getCached w') := by
  have h₁ := h.setCaller (congrArg₂ (fun (f : Byte → Byte) z => f z) h.caches h.cacheIndex)
  exact (h₁.setOwner (congrArg (fun o : Owner => { o with pos := o.pos + 1 }) h₁.owner)).finishes (1 : Byte)

theorem fillCache_congr {p p' : ℕ → Byte} (n y : ℕ) (pos : Byte) (c : Byte → Byte)
    (h : ∀ i, 12 + y ≤ i → i < 12 + y + n → p i = p' i) : fillCache p n y pos c = fillCache p' n y pos c := by
  induction n generalizing y pos c with
  | zero => rfl
  | succ n ih =>
    rw [fillCache, fillCache, h (12 + y) (by omega) (by omega)]
    exact ih _ _ _ fun i hi hi' => h i (by omega) (by omega)

/-- A READ response is published from its payload alone. -/
theorem publishRead_same {w w' : Ram} (h : Same w w') (ha : Answered w w') (hcount : w.count = w'.count)
    (hroom : 12 + w.count.toNat ≤ w.wire.payloadLen.toNat) : Same (publishRead w) (publishRead w') := by
  have hpayload := ha.taken.payload
  have heof : w.wire.packet (1 + w.wire.payload.toNat) = w'.wire.packet (1 + w'.wire.payload.toNat) := by
    rw [← hpayload]
    exact ha.bytes (by omega)
  have ho : addOffset w.count { w.owner with eof := w.wire.packet (1 + w.wire.payload.toNat) &&& 1, len := w.count } =
      addOffset w'.count { w'.owner with eof := w'.wire.packet (1 + w'.wire.payload.toNat) &&& 1, len := w'.count } := by
    rw [heof, hcount, h.owner]
  have h₁ := h.setOwner (congrArg (fun o : Owner => { o with pos := 0 }) ho)
  rw [hcount] at hroom
  refine h₁.setCaches ?_
  rw [h₁.cacheIndex, h₁.caches, Ram.setOwner_count, Ram.setOwner_count, Ram.setOwner_wire, Ram.setOwner_wire, hcount,
    hpayload]
  exact fillCache_congr _ _ _ _ fun i hi hi' => ha.bytes (by rw [hpayload]; omega)

theorem getRefill_finishes {w w' : Ram} (h : Same w w') : Finishes (getRefill w) (getRefill w') := by
  rw [getRefill, getRefill]
  rcases (sessionPacket_steps 2 h).split with ⟨v, v', hr, hr', hv⟩ | ⟨v, v', hr, hr', hv, hb⟩
  · rw [hr, hr']
    exact hv.finishes _
  rw [hr, hr']
  have hread : Same (readRequest v) (readRequest v') := hv.setWire ⟨hb.tuned.outstanding, hb.tuned.results, hb.tuned.log⟩
  have hbuilt : Built (readRequest v).wire (readRequest v').wire :=
    @built_of_cleared (v.wire.poke 13 128) (v'.wire.poke 13 128) _
      ⟨⟨hb.tuned.outstanding, hb.tuned.results, hb.tuned.log⟩, hb.tuned.command⟩ (poke_cleared hb.cleared 13 rfl) (by decide) (by decide)
  rcases (transfer_steps hread hbuilt).split with ⟨v, v', hr, hr', hv⟩ | ⟨v, v', hr, hr', hv, ha⟩
  · dsimp only
    rw [hr, hr']
    exact hv.finishes _
  dsimp only
  rw [hr, hr']
  rcases (checkRw_steps hv ha).split with ⟨v, v', hr, hr', hv⟩ | ⟨v, v', hr, hr', hv, ha, hcount, htwelve⟩
  · dsimp only
    rw [hr, hr']
    exact hv.finishes _
  dsimp only
  rw [hr, hr']
  simp only [Bool.false_eq_true, if_false]
  refine ite_rel (by rw [hcount, ha.taken.payloadLen]) (fun _ => hv.finishes _) fun hroom => ?_
  have h12 : (12 : Byte).toNat = 12 := rfl
  have hcountle : 12 + v.count.toNat ≤ v.wire.payloadLen.toNat := by
    have hge : ¬v.wire.payloadLen - 12 < v.count := hroom
    bv_omega
  have hp := publishRead_same hv ha hcount hcountle
  have hpc : (publishRead v).count = (publishRead v').count := hcount
  exact ite_rel (iff_of_eq (congrArg (· = 0) hpc)) (fun _ => hp.finishes _) fun _ => getCached_finishes hp

theorem getRead_finishes {w w' : Ram} (h : Same w w') : Finishes (getRead w) (getRead w') := by
  have howner := h.owner
  rw [getRead, getRead]
  refine ite_rel (by rw [howner]) (fun _ => getCached_finishes h) fun _ => ?_
  exact ite_rel (by rw [howner]) (fun _ => h.finishes _) fun _ => getRefill_finishes h

theorem getEnter_finishes {w w' : Ram} (h : Same w w') : Finishes (getEnter w) (getEnter w') := by
  have howner := h.owner
  rw [getEnter, getEnter]
  refine ite_rel (by rw [howner]) (fun _ => h.finishes _) fun _ => ?_
  refine ite_rel (by rw [howner]) (fun _ => h.finishes _) fun _ => ?_
  refine ite_rel (by rw [howner]) (fun _ => h.finishes _) fun _ => ?_
  obtain ⟨y, v, v', hr, hr', hv⟩ := (finishWrite_finishes h).split
  rw [hr, hr']
  refine ite_rel Iff.rfl (fun _ => hv.finishes _) fun _ => ?_
  rw [startReading, startReading, hv.owner]
  exact (hv.setOwner rfl).finishes _

theorem doGet_finishes {w w' : Ram} (h : Same w w') : Finishes (doGet w) (doGet w') := by
  obtain ⟨y, v, v', hr, hr', hv⟩ := (getEnter_finishes h).split
  rw [doGet, doGet, hr, hr']
  cases y with
  | none => exact getRead_finishes hv
  | some y => exact hv.finishes y

/-! ### STATUS, CLOSE and OPEN -/

/-- The nine bytes of a request with no other fields. -/
theorem session_built {w w' : Ram} (hb : Begun w w') : Built w.wire w'.wire := by
  refine ⟨hb.tuned, by rw [hb.requestLen.1, hb.requestLen.2], fun i hi => hb.cleared i ?_⟩
  rw [hb.requestLen.1] at hi
  exact Nat.lt_trans hi (by decide)

/-- A request of a session is refused before it is sent, or sent, alike in both. -/
theorem session_cases (a : Byte) {w w' : Ram} (h : Same w w') :
    (∃ v v', sessionPacket a w = (true, v) ∧ sessionPacket a w' = (true, v') ∧ Same v v') ∨
      ∃ u u' c v v', sessionPacket a w = (false, u) ∧ sessionPacket a w' = (false, u') ∧ transfer u = (c, v) ∧
        transfer u' = (c, v') ∧ Same v v' := by
  rcases (sessionPacket_steps a h).split with ⟨v, v', hr, hr', hv⟩ | ⟨u, u', hr, hr', hu, hb⟩
  · exact .inl ⟨v, v', hr, hr', hv⟩
  · rcases (transfer_steps hu (session_built hb)).split with ⟨v, v', hs, hs', hv⟩ | ⟨v, v', hs, hs', hv, -⟩
    · exact .inr ⟨u, u', true, v, v', hr, hr', hs, hs', hv⟩
    · exact .inr ⟨u, u', false, v, v', hr, hr', hs, hs', hv⟩

theorem statusInfo_finishes {w w' : Ram} (h : Same w w') : Finishes (statusInfo w) (statusInfo w') := by
  rw [statusInfo, statusInfo]
  rcases session_cases 5 h with ⟨v, v', hr, hr', hv⟩ | ⟨u, u', c, v, v', hr, hr', hs, hs', hv⟩
  · rw [hr, hr']
    exact hv.finishes _
  rw [hr, hr']
  dsimp only
  rw [hs, hs']
  cases c with
  | true => exact hv.finishes _
  | false =>
    simp only [Bool.false_eq_true, if_false]
    have howner := hv.owner
    refine ite_rel (by rw [howner]) (fun _ => hv.finishes _) fun _ => ?_
    refine ite_rel (by rw [howner]) (fun _ => hv.finishes _) fun _ => ?_
    exact ite_rel (by rw [howner]) (fun _ => hv.finishes _) fun _ => hv.finishes _

theorem doStatus_finishes {w w' : Ram} (h : Same w w') : Finishes (doStatus w) (doStatus w') := by
  rw [doStatus, doStatus]
  refine ite_rel (by rw [h.owner]) (fun _ => statusInfo_finishes h) fun _ => ?_
  obtain ⟨y, v, v', hr, hr', hv⟩ := (finishWrite_finishes h).split
  rw [hr, hr']
  exact ite_rel Iff.rfl (fun _ => hv.finishes y) fun _ => statusInfo_finishes hv

theorem closeSession_finishes (y : Byte) {w w' : Ram} (h : Same w w') :
    Finishes (closeSession y w) (closeSession y w') := by
  rw [closeSession, closeSession]
  rcases session_cases 4 h with ⟨v, v', hr, hr', hv⟩ | ⟨u, u', c, v, v', hr, hr', hs, hs', hv⟩
  · rw [hr, hr']
    exact hv.finishes _
  rw [hr, hr']
  dsimp only
  rw [hs, hs']
  cases c with
  | true => exact hv.finishes _
  | false => exact hv.finishes _

theorem doClose_finishes {w w' : Ram} (h : Same w w') : Finishes (doClose w) (doClose w') := by
  have hfirst : Finishes (if w.owner.mode = 4 then success w else finishWrite w)
      (if w'.owner.mode = 4 then success w' else finishWrite w') :=
    ite_rel (by rw [h.owner]) (fun _ => h.finishes 1) fun _ => finishWrite_finishes h
  obtain ⟨y, v, v', hr, hr', hv⟩ := hfirst.split
  rw [doClose, doClose, hr, hr']
  obtain ⟨z, u, u', hc, hc', hu⟩ := (closeSession_finishes y hv).split
  dsimp only
  rw [hc, hc']
  exact (hu.setOwner (by rw [hu.owner])).finishes z

theorem uriLoop_congr (mem : Word → Byte) (ptr : Byte × Byte) (n y x : ℕ) {p p' : ℕ → Byte}
    (h : ∀ i < packetMax, p i = p' i) :
    (uriLoop mem ptr n y x p).1 = (uriLoop mem ptr n y x p').1 ∧
      ∀ i < packetMax, (uriLoop mem ptr n y x p).2 i = (uriLoop mem ptr n y x p').2 i := by
  induction n generalizing y x p p' with
  | zero =>
    rw [uriLoop, uriLoop]
    split_ifs <;> exact ⟨rfl, h⟩
  | succ n ih =>
    rw [uriLoop, uriLoop]
    split_ifs
    · exact ⟨rfl, h⟩
    · exact ih _ _ (update_congr rfl h)

theorem openExchange_finishes (openMode : Byte) {w w' : Ram} (h : Same w w') (hb : Built w.wire w'.wire) :
    Finishes (openExchange openMode w) (openExchange openMode w') := by
  rw [openExchange, openExchange]
  rcases (transfer_steps h hb).split with ⟨v, v', hr, hr', hv⟩ | ⟨v, v', hr, hr', hv, ha⟩
  · rw [hr, hr']
    exact hv.finishes _
  rw [hr, hr']
  simp only [Bool.false_eq_true, if_false]
  refine ite_rel (by rw [ha.taken.payloadLen]) (fun _ => hv.finishes _) fun hseven => ?_
  have hlen : 7 ≤ v.wire.payloadLen.toNat := Nat.not_lt.1 hseven
  have h4 := ha.bytes (i := 4 + v.wire.payload.toNat) (by omega)
  have h5 := ha.bytes (i := 5 + v.wire.payload.toNat) (by omega)
  rw [h4, h5, ha.taken.payload]
  refine ite_rel Iff.rfl (fun _ => hv.finishes _) fun _ => ?_
  exact (hv.setOwner (by rw [hv.callerX])).finishes _

theorem uriLoop_le (mem : Word → Byte) (ptr : Byte × Byte) (n y x : ℕ) (p : ℕ → Byte) {k : ℕ}
    (h : (uriLoop mem ptr n y x p).1 = some k) : k ≤ x + n := by
  induction n generalizing y x p with
  | zero =>
    rw [uriLoop] at h
    split_ifs at h
    exact (Option.some.inj h).ge
  | succ n ih =>
    rw [uriLoop] at h
    split_ifs at h
    · have := Option.some.inj h
      omega
    · have := ih _ _ _ h
      omega

/-- The fields of an OPEN request lie in the cleared part. -/
theorem openRequest_built (openMode : Byte) {n : ℕ} (hn : n ≤ 128) {p p' : Wire} (ht : Tuned p p') (hc : Cleared p p') :
    Built (openRequest openMode n p) (openRequest openMode n p') := by
  have hlen : (BitVec.ofNat 8 n + 19).toNat = n + 19 := by
    have h19 : (19 : Byte).toNat = 19 := rfl
    rw [BitVec.toNat_add, BitVec.toNat_ofNat]
    omega
  have h0 : BitVec.ofNat 8 n + 19 ≠ 0 := fun h => by
    rw [h] at hlen
    simp at hlen
  have h9 := @built_of_cleared (p.poke 9 (BitVec.ofNat 8 n)) (p'.poke 9 (BitVec.ofNat 8 n)) _
    ⟨⟨ht.outstanding, ht.results, ht.log⟩, ht.command⟩ (poke_cleared hc 9 rfl) h0 (by rw [hlen, packetMax]; omega)
  rw [openRequest, openRequest]
  refine ite_rel Iff.rfl (fun _ => ?_) fun _ => ?_
  · exact ⟨⟨⟨h9.outstanding, h9.results, h9.log⟩, h9.command⟩, rfl, update_congr rfl h9.bytes⟩
  · exact ⟨⟨⟨h9.outstanding, h9.results, h9.log⟩, h9.command⟩, rfl, update_congr rfl (update_congr rfl h9.bytes)⟩

theorem openNamed_finishes (mem : Word → Byte) (openMode : Byte) {w w' : Ram} (h : Same w w') :
    Finishes (openNamed mem openMode w) (openNamed mem openMode w') := by
  have hbegin := beginPacket_twin 1 h.wire
  rw [openNamed, openNamed]
  generalize beginPacket 1 w.wire = r at hbegin
  generalize beginPacket 1 w'.wire = r' at hbegin
  obtain ⟨c, q⟩ := r
  obtain ⟨c', q'⟩ := r'
  obtain rfl : c = c' := hbegin.failed
  have ht := hbegin.tuned
  have h₁ := h.setWire ht.toLow
  cases c with
  | true => exact h₁.finishes _
  | false =>
    have hclear := hbegin.done rfl
    simp only [Bool.false_eq_true, if_false, Ram.setWire_callerX, Ram.setPtr_ptr, Ram.setPtr_wire, Ram.setWire_wire]
    rw [← h.callerX]
    generalize mem (0x0344 + w.callerX.setWidth 16) = low
    generalize mem (0x0345 + w.callerX.setWidth 16) = high
    have h₂ : Same ((w.setWire q).setPtr (low, high)) ((w'.setWire q').setPtr (low, high)) := h₁.setPtr rfl
    refine ite_rel Iff.rfl (fun _ => h₂.finishes _) fun _ => ?_
    refine ite_rel Iff.rfl (fun _ => h₂.finishes _) fun _ => ?_
    refine ite_rel Iff.rfl (fun _ => h₂.finishes _) fun _ => ?_
    refine ite_rel Iff.rfl (fun _ => h₂.finishes _) fun _ => ?_
    obtain ⟨hfst, hbytes⟩ := uriLoop_congr mem (low, high) 128 2 0 hclear
    have hle : ∀ k, (uriLoop mem (low, high) 128 2 0 q.packet).1 = some k → k ≤ 0 + 128 := fun k => uriLoop_le mem (low, high) 128 2 0 _
    have hset : ∀ z z' : ℕ → Byte, Low (q.setPacket z) (q'.setPacket z') := fun z z' => ⟨ht.outstanding, ht.results, ht.log⟩
    dsimp only at hfst hbytes hle
    generalize uriLoop mem (low, high) 128 2 0 q.packet = u at *
    generalize uriLoop mem (low, high) 128 2 0 q'.packet = u' at *
    obtain ⟨n, z⟩ := u
    obtain ⟨n', z'⟩ := u'
    obtain rfl : n = n' := hfst
    rcases n with _ | _ | n
    · exact (h₂.setWire (hset z z')).finishes _
    · exact (h₂.setWire (hset z z')).finishes _
    · have hb := @openRequest_built openMode _ (hle _ rfl) (q.setPacket z) (q'.setPacket z')
        ⟨hset z z', ht.command⟩ hbytes
      exact openExchange_finishes openMode (h₂.setWire hb.toLow) hb

/-! ### A call -/

/-- As `Same`, before an owner is chosen. -/
structure Alike (w w' : Ram) : Prop where
  owners : w.owners = w'.owners
  caches : w.caches = w'.caches
  busy : w.busy = w'.busy
  callerA : w.callerA = w'.callerA
  callerX : w.callerX = w'.callerX
  ptr : w.ptr = w'.ptr
  wire : Low w.wire w'.wire

theorem Same.alike {w w' : Ram} (h : Same w w') : Alike w w' :=
  ⟨h.owners, h.caches, h.busy, h.callerA, h.callerX, h.ptr, h.wire⟩

theorem Alike.setSlot {w w' : Ram} (h : Alike w w') (k : Slot) : Same (w.setSlot k) (w'.setSlot k) :=
  ⟨h.owners, h.caches, h.busy, h.callerA, h.callerX, h.ptr, rfl, h.wire⟩

/-- Two outcomes of a call with one code. -/
structure Agrees (r r' : Byte × Ram) : Prop where
  code : r.1 = r'.1
  alike : Alike r.2 r'.2

theorem Alike.agrees {w w' : Ram} (h : Alike w w') (y : Byte) : Agrees (y, w) (y, w') := ⟨rfl, h⟩

theorem Finishes.agrees {r r' : Byte × Ram} (h : Finishes r r') : Agrees r r' := ⟨h.code, h.same.alike⟩

theorem doOpen_agrees (mem : Word → Byte) {w w' : Ram} (h : Alike w w') : Agrees (doOpen mem w) (doOpen mem w') := by
  rw [doOpen, doOpen, h.callerX, h.owners]
  refine ite_rel Iff.rfl (fun _ => h.agrees _) fun _ => ?_
  refine ite_rel Iff.rfl (fun _ => (openNamed_finishes mem _ (h.setSlot .x16)).agrees) fun _ => ?_
  exact ite_rel Iff.rfl (fun _ => (openNamed_finishes mem _ (h.setSlot .x0)).agrees) fun _ => h.agrees _

theorem dispatch_agrees (mem : Word → Byte) (op : Op) {w w' : Ram} (h : Alike w w') :
    Agrees (dispatch mem op w) (dispatch mem op w') := by
  have hfind : findOwner w = findOwner w' := by rw [findOwner, findOwner, h.owners, h.callerX]
  unfold dispatch
  rw [hfind, h.callerX]
  refine ite_rel Iff.rfl (fun _ => h.agrees _) fun _ => ?_
  cases findOwner w' with
  | none =>
    cases op with
    | openIocb => exact doOpen_agrees mem h
    | close => exact h.agrees _
    | get => exact h.agrees _
    | put => exact h.agrees _
    | status => exact h.agrees _
  | some k =>
    have hk := h.setSlot k
    cases op with
    | openIocb => exact (hk.finishes (0x81 : Byte)).agrees
    | close => exact (doClose_finishes hk).agrees
    | get => exact (doGet_finishes hk).agrees
    | put => exact (doPut_finishes hk).agrees
    | status => exact (doStatus_finishes hk).agrees

/-- One operation from two contents of the packet buffer and of the other transport
variables: the same SIO calls and frames, the same result, and the same state but for those. -/
theorem no_stale_bytes (c : Call) {w w' : Ram} (howners : w.owners = w'.owners) (hcaches : w.caches = w'.caches)
    (hbusy : w.busy = w'.busy) (houtstanding : w.wire.outstanding = w'.wire.outstanding) :
    (perform c w).1 = (perform c w').1 ∧ (perform c w).2.owners = (perform c w').2.owners ∧
      (perform c w).2.caches = (perform c w').2.caches ∧
      (perform c w).2.wire.outstanding = (perform c w').2.wire.outstanding := by
  by_cases hb : w.busy = 0
  · have hin : Alike (entered c w) (entered c w') :=
      ⟨howners, hcaches, congrArg (· + 1) hbusy, rfl, rfl, rfl, houtstanding, rfl, rfl⟩
    have hd := dispatch_agrees c.mem c.op hin
    generalize hr : dispatch c.mem c.op (entered c w) = r at hd
    generalize hr' : dispatch c.mem c.op (entered c w') = r' at hd
    obtain ⟨y, v⟩ := r
    obtain ⟨y', v'⟩ := r'
    obtain rfl : y = y' := hd.code
    have hv : Alike v v' := hd.alike
    rw [perform_free hb hr, perform_free (hbusy ▸ hb) hr', hv.callerA, hv.wire.log]
    exact ⟨rfl, hv.owners, hv.caches, hv.wire.outstanding⟩
  · rw [perform_busy hb, perform_busy (hbusy ▸ hb)]
    exact ⟨rfl, howners, hcaches, houtstanding⟩

/-- The initial state, with the packet buffer filled by another packet. -/
def usedInit : Ram := init.setWire (init.wire.setPacket fun _ => 0xff)

/-- An OPEN that is answered, from both states. -/
theorem no_stale_bytes_open :
    (perform (channelOpen 4) init).1 = (perform (channelOpen 4) usedInit).1 ∧
      (perform (channelOpen 4) init).2.owners = (perform (channelOpen 4) usedInit).2.owners ∧
      (perform (channelOpen 4) init).2.caches = (perform (channelOpen 4) usedInit).2.caches ∧
      (perform (channelOpen 4) init).2.wire.outstanding = (perform (channelOpen 4) usedInit).2.wire.outstanding := by
  have howners : init.owners = usedInit.owners := rfl
  have hcaches : init.caches = usedInit.caches := rfl
  have hbusy : init.busy = usedInit.busy := rfl
  have houtstanding : init.wire.outstanding = usedInit.wire.outstanding := rfl
  exact no_stale_bytes (channelOpen 4) howners hcaches hbusy houtstanding

end NioApps.Resident
