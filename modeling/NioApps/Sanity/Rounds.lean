import NioApps.Spec.Stress

/-! The rounds of HSIONET's client, whoever it talks to: what it has sent and got at each
of its calls, kept by every step. -/

namespace NioApps.Stress

open Pipe

/-! ### The answers -/

/-- The requests of the first `k` rounds. -/
def sequence (k : ℕ) : List Byte := (List.range k).map (BitVec.ofNat 8)

/-- What the server answers to them. -/
def replies (k : ℕ) : List Byte := answers chunks (sequence k)

@[simp] theorem length_sequence (k : ℕ) : (sequence k).length = k := by simp [sequence]

theorem sequence_succ (k : ℕ) : sequence (k + 1) = sequence k ++ [BitVec.ofNat 8 k] := by
  simp [sequence, List.range_succ]

theorem flatten_chunks (seq : Byte) : (chunks seq).flatten = response seq := by
  unfold chunks
  dsimp only
  generalize (if seq &&& 1 ≠ 0 then (response seq).length / 2 else (response seq).length) = split
  split_ifs with h
  · simp
  · simp [List.take_of_length_le (by omega : (response seq).length ≤ split)]

theorem replies_succ (k : ℕ) : replies (k + 1) = replies k ++ response (BitVec.ofNat 8 k) := by
  simp [replies, sequence_succ, flatten_chunks]

theorem replies_initial {k m : ℕ} (h : k ≤ m) : replies k <+: replies m := by
  induction m, h using Nat.le_induction with
  | base => exact List.prefix_refl _
  | succ m _ ih =>
    rw [replies_succ]
    exact ih.trans (List.prefix_append _ _)

/-- Both programs have the same table. -/
theorem length_response (seq : Byte) : (response seq).length = lengths.getD (seq &&& 7).toNat 0 := by
  simp [response, lengths, serverLengths]

theorem low_bits_lt (seq : Byte) : (seq &&& 7).toNat < 8 := by
  rw [BitVec.toNat_and]
  exact lt_of_le_of_lt Nat.and_le_right (by decide)

theorem length_response_pos (seq : Byte) : 0 < (response seq).length := by
  have hall : ∀ i < 8, 0 < lengths.getD i 0 := by decide
  rw [length_response]
  exact hall _ (low_bits_lt seq)

theorem getElem?_response {seq : Byte} {i : ℕ} (h : i < (response seq).length) :
    (response seq)[i]? = some (seq + BitVec.ofNat 8 i) := by
  rw [response, List.length_map, List.length_range] at h
  rw [response, List.getElem?_map, List.getElem?_range h]
  rfl

/-! ### The check of one read -/

section Check

variable {c : Client} {data : List Byte}

/-- The byte that the loop expects at index `i`, as a byte of the answer. -/
theorem expected_eq (hfit : c.total + data.length ≤ (response c.seq).length) {i : ℕ} (hi : i < data.length) :
    some (c.seq + BitVec.ofNat 8 c.total + BitVec.ofNat 8 i) = (response c.seq)[c.total + i]? := by
  rw [getElem?_response (by omega), BitVec.ofNat_add, BitVec.add_assoc]

theorem take_append_of_firstBad (hfit : c.total + data.length ≤ (response c.seq).length)
    (h : c.firstBad data = none) :
    (response c.seq).take c.total ++ data = (response c.seq).take (c.total + data.length) := by
  rw [List.take_add]
  congr 1
  apply List.ext_getElem?
  intro i
  rw [Client.firstBad, List.find?_eq_none] at h
  by_cases hi : i < data.length
  · have hgood := h i (List.mem_range.2 hi)
    rw [expected_eq hfit hi] at hgood
    rw [List.getElem?_take_of_lt hi, List.getElem?_drop]
    simpa using hgood
  · rw [List.getElem?_eq_none (by omega), List.getElem?_eq_none (by simp; omega)]

/-- The read that ends the run differs from the answer at the reported index, and there first. -/
theorem firstBad_some (hfit : c.total + data.length ≤ (response c.seq).length) {i : ℕ}
    (h : c.firstBad data = some i) :
    i < data.length ∧ data.take i = ((response c.seq).drop c.total).take i ∧
      data[i]? ≠ (response c.seq)[c.total + i]? := by
  rw [Client.firstBad, List.find?_range_eq_some] at h
  obtain ⟨hbad, hi, hmin⟩ := h
  rw [List.mem_range] at hi
  rw [expected_eq hfit hi] at hbad
  refine ⟨hi, ?_, by simpa using hbad⟩
  apply List.ext_getElem?
  intro j
  by_cases hj : j < i
  · have hgood := hmin j hj
    rw [expected_eq hfit (by omega)] at hgood
    rw [List.getElem?_take_of_lt hj, List.getElem?_take_of_lt hj, List.getElem?_drop]
    simpa using hgood
  · rw [List.getElem?_eq_none (by simp; omega), List.getElem?_eq_none (by simp; omega)]

end Check

/-! ### The calls -/

namespace Client

variable {c c' : Client}

theorem step_wrote {status : Status} {written : Word} {clock : Byte} (h : c.step (.wrote status written clock) = some c') :
    c.stage = .write ∧ c.afterWrite status written clock = c' := by
  cases hstage : c.stage <;> simp_all [step]

theorem step_polled {proc : Bool} {clock clock' : Byte} (h : c.step (.polled proc clock clock') = some c') :
    c.stage = .poll ∧ c.afterPoll proc clock clock' = c' := by
  cases hstage : c.stage <;> simp_all [step]

theorem step_received {status : Status} {data : List Byte} {flags : ReadFlags} {more : Bool}
    (h : c.step (.received status data flags more) = some c') :
    c.stage = .read ∧ c.afterRead status data flags more = c' := by
  cases hstage : c.stage <;> simp_all [step]

theorem step_keyHit {hit : Bool} (h : c.step (.keyHit hit) = some c') : c.stage = .key ∧ c.afterKey hit = c' := by
  cases hstage : c.stage <;> simp_all [step]

end Client

/-! ### The invariant -/

/-- Where the client is in its `k`-th round. -/
inductive Round (k : ℕ) (w : Session) : Prop
  | write (hstage : w.client.stage = .write) (hseq : w.client.seq = BitVec.ofNat 8 k)
      (hn : w.client.n = (response w.client.seq).length) (hsent : w.sent = sequence k) (hgot : w.got = replies k)
  | reading (hstage : w.client.stage = .poll ∨ w.client.stage = .read) (hseq : w.client.seq = BitVec.ofNat 8 k)
      (hn : w.client.n = (response w.client.seq).length) (htotal : w.client.total < w.client.n)
      (hsent : w.sent = sequence (k + 1)) (hgot : w.got = replies k ++ (response w.client.seq).take w.client.total)
  | key (hstage : w.client.stage = .key) (hsent : w.sent = sequence k) (hgot : w.got = replies k)
  | stopped (r : Report) (hstage : w.client.stage = .stopped r) (hr : ∀ i, r ≠ .badData i)
      (hgot : ∃ t, w.got = replies k ++ (response (BitVec.ofNat 8 k)).take t)
  | bad (i : ℕ) (hstage : w.client.stage = .stopped (.badData i)) (x : List Byte) (hgot : w.got = replies k ++ x)
      (hi : i < (response (BitVec.ofNat 8 k)).length) (hx : i < x.length)
      (hfirst : x.take i = (response (BitVec.ofNat 8 k)).take i) (hbad : x[i]? ≠ (response (BitVec.ofNat 8 k))[i]?)

structure Inv (k : ℕ) (w : Session) : Prop where
  rounds : w.client.rounds = BitVec.ofNat 16 k
  woff : w.client.woff = BitVec.ofNat 32 w.sent.length
  roff : (∀ i, w.client.stage ≠ .stopped (.badData i)) → w.client.roff = BitVec.ofNat 32 w.got.length
  round : Round k w

theorem seq_of_rounds {r : Word} {k : ℕ} (h : r = BitVec.ofNat 16 k) : r.setWidth 8 = BitVec.ofNat 8 k := by
  rw [h]
  apply BitVec.eq_of_toNat_eq
  simp only [BitVec.toNat_setWidth, BitVec.toNat_ofNat]
  exact Nat.mod_mod_of_dvd k (by decide)

theorem inv_start : Inv 0 .start := by
  refine ⟨rfl, rfl, fun _ => rfl, Round.write rfl rfl ?_ rfl rfl⟩
  rw [length_response]
  rfl

section Steps

variable {k : ℕ} {w : Session}

/-- The client writes the next request. -/
theorem Inv.nextRound (h : Inv k w) (hsent : w.sent = sequence k) (hgot : w.got = replies k)
    (hstage : w.client.stage = .key) : Inv k ⟨w.client.nextRound, w.sent, w.got⟩ := by
  have hseq := seq_of_rounds h.rounds
  refine ⟨h.rounds, h.woff, fun _ => h.roff (by simp [hstage]), Round.write rfl hseq ?_ hsent hgot⟩
  exact (length_response _).symm

theorem Inv.afterKey (h : Inv k w) (hstage : w.client.stage = .key) (hit : Bool) :
    Inv k ⟨w.client.afterKey hit, w.sent, w.got⟩ := by
  cases h.round with
  | key _ hsent hgot =>
    cases hit with
    | true =>
      exact ⟨h.rounds, h.woff, fun _ => h.roff (by simp [hstage]),
        Round.stopped _ rfl (fun i => by simp) ⟨0, by simpa using hgot⟩⟩
    | false => exact h.nextRound hsent hgot hstage
  | write hs => simp [hstage] at hs
  | reading hs => simp [hstage] at hs
  | stopped r hs => simp [hstage] at hs
  | bad i hs => simp [hstage] at hs

/-- The end of a read, or of the write, with the answer so far. -/
theorem Inv.test {c : Client} {sent got : List Byte} (hrounds : c.rounds = BitVec.ofNat 16 k)
    (hwoff : c.woff = BitVec.ofNat 32 sent.length) (hroff : c.roff = BitVec.ofNat 32 got.length)
    (hseq : c.seq = BitVec.ofNat 8 k) (hn : c.n = (response c.seq).length) (hsent : sent = sequence (k + 1))
    (hgot : got = replies k ++ (response c.seq).take c.total) :
    ∃ k', Inv k' ⟨c.test, sent, got⟩ := by
  by_cases htotal : c.total < c.n
  · rw [Client.test, if_pos htotal]
    exact ⟨k, hrounds, hwoff, fun _ => hroff, Round.reading (Or.inl rfl) hseq hn htotal hsent hgot⟩
  · rw [Client.test, if_neg htotal]
    refine ⟨k + 1, ?_, hwoff, fun _ => hroff, Round.key rfl hsent ?_⟩
    · simp [hrounds, BitVec.ofNat_add]
    · rw [hgot, replies_succ, List.take_of_length_le (by omega), hseq]

theorem Inv.afterWrite (h : Inv k w) (hstage : w.client.stage = .write) (status : Status) (written : Word)
    (clock : Byte) :
    ∃ k', Inv k' ⟨w.client.afterWrite status written clock,
      w.sent ++ (Answer.wrote status written clock).taken w.client.seq, w.got⟩ := by
  have hroff := h.roff (by simp [hstage])
  cases h.round with
  | write _ hseq hn hsent hgot =>
    rw [Client.afterWrite]
    by_cases hretry : status = .notReady ∨ status = .busy
    · -- nothing was sent, and the same write comes again
      have htaken : (Answer.wrote status written clock).taken w.client.seq = [] := by
        rcases hretry with rfl | rfl <;> rfl
      rw [if_pos hretry, htaken, List.append_nil]
      exact ⟨k, h⟩
    rw [if_neg hretry]
    by_cases hfail : status ≠ .ok ∨ written ≠ 1
    · have htaken : (Answer.wrote status written clock).taken w.client.seq = [] := by
        cases status with
        | ok => exact if_neg (hfail.resolve_left fun hne => hne rfl)
        | notReady => rfl
        | busy => rfl
        | error code => rfl
      rw [if_pos hfail, htaken, List.append_nil]
      exact ⟨k, h.rounds, h.woff, fun _ => hroff,
        Round.stopped _ rfl (fun i => by simp) ⟨0, by simpa using hgot⟩⟩
    · rw [not_or, not_not, not_not] at hfail
      obtain ⟨rfl, rfl⟩ := hfail
      rw [if_neg (by simp)]
      have hnext : w.sent ++ [w.client.seq] = sequence (k + 1) := by rw [hsent, hseq, sequence_succ]
      have hoff : w.client.woff + 1 = BitVec.ofNat 32 (w.sent ++ [w.client.seq]).length := by
        simp [h.woff, BitVec.ofNat_add]
      exact Inv.test (c := { w.client with woff := w.client.woff + 1, total := 0, pending := true, last := clock })
        h.rounds hoff hroff hseq hn hnext (by simpa using hgot)
  | reading hs => simp [hstage] at hs
  | key hs => simp [hstage] at hs
  | stopped r hs => simp [hstage] at hs
  | bad i hs => simp [hstage] at hs

theorem Inv.afterPoll (h : Inv k w) (hstage : w.client.stage = .poll) (proc : Bool) (clock clock' : Byte) :
    Inv k ⟨w.client.afterPoll proc clock clock', w.sent, w.got⟩ := by
  have hroff := h.roff (by simp [hstage])
  cases h.round with
  | write hs => simp [hstage] at hs
  | reading _ hseq hn htotal hsent hgot =>
    rw [Client.afterPoll]
    cases proc with
    | true => exact ⟨h.rounds, h.woff, fun _ => hroff, Round.reading (Or.inr rfl) hseq hn htotal hsent hgot⟩
    | false =>
      simp only [Bool.false_eq_true, if_false]
      split_ifs
      · exact h
      · exact ⟨h.rounds, h.woff, fun _ => hroff, Round.reading (Or.inr rfl) hseq hn htotal hsent hgot⟩
  | key hs => simp [hstage] at hs
  | stopped r hs => simp [hstage] at hs
  | bad i hs => simp [hstage] at hs

theorem Inv.afterRead (h : Inv k w) (hstage : w.client.stage = .read) (status : Status) (data : List Byte)
    (flags : ReadFlags) (more : Bool)
    (hfit : (Answer.received status data flags more).delivered.length ≤ w.client.n - w.client.total) :
    ∃ k', Inv k' ⟨w.client.afterRead status data flags more, w.sent,
      w.got ++ (Answer.received status data flags more).delivered⟩ := by
  have hroff := h.roff (by simp [hstage])
  cases h.round with
  | write hs => simp [hstage] at hs
  | reading _ hseq hn htotal hsent hgot =>
    rw [Client.afterRead]
    by_cases hretry : status = .notReady ∨ status = .busy
    · have hnone : (Answer.received status data flags more).delivered = [] := by
        rcases hretry with rfl | rfl <;> rfl
      rw [if_pos hretry, hnone, List.append_nil]
      exact Inv.test h.rounds h.woff hroff hseq hn hsent hgot
    rw [if_neg hretry]
    by_cases hfail : status ≠ .ok ∨ data = [] ∧ flags.eof
    · have hnone : (Answer.received status data flags more).delivered = [] := by
        cases status with
        | ok => exact (hfail.resolve_left fun hne => hne rfl).1
        | notReady => rfl
        | busy => rfl
        | error code => rfl
      rw [if_pos hfail, hnone, List.append_nil]
      exact ⟨k, h.rounds, h.woff, fun _ => hroff,
        Round.stopped _ rfl (fun i => by simp) ⟨w.client.total, by rw [hgot, hseq]⟩⟩
    · rw [if_neg hfail]
      rw [not_or, not_not] at hfail
      obtain ⟨rfl, -⟩ := hfail
      have hlen : w.client.total + data.length ≤ (response w.client.seq).length := by
        change data.length ≤ _ at hfit
        omega
      cases hbad : w.client.firstBad data with
      | none =>
        have hnext : w.got ++ data =
            replies k ++ (response w.client.seq).take (w.client.total + data.length) := by
          rw [hgot, List.append_assoc, take_append_of_firstBad hlen hbad]
        have hoff : w.client.roff + BitVec.ofNat 32 data.length = BitVec.ofNat 32 (w.got ++ data).length := by
          rw [hroff, List.length_append, BitVec.ofNat_add]
        -- the two conditions only say when to look again
        dsimp only [Answer.delivered]
        split_ifs <;> exact Inv.test h.rounds h.woff hoff hseq hn hsent hnext
      | some i =>
        obtain ⟨hi, hfirst, hdiff⟩ := firstBad_some hlen hbad
        have hpre : ((response w.client.seq).take w.client.total).length = w.client.total := by
          rw [List.length_take]
          omega
        refine ⟨k, h.rounds, h.woff, fun hne => absurd rfl (hne (w.client.total + i)), ?_⟩
        refine Round.bad (w.client.total + i) rfl ((response w.client.seq).take w.client.total ++ data) ?_ ?_ ?_ ?_ ?_
        · simp [Answer.delivered, hgot]
        · rw [← hseq]
          omega
        · rw [List.length_append, hpre]
          omega
        · rw [List.take_append, hpre, List.take_of_length_le (by omega), Nat.add_sub_cancel_left, hfirst, ← hseq,
            List.take_add]
        · rw [List.getElem?_append_right (by omega), hpre, Nat.add_sub_cancel_left, ← hseq]
          exact hdiff
  | key hs => simp [hstage] at hs
  | stopped r hs => simp [hstage] at hs
  | bad i hs => simp [hstage] at hs

theorem Inv.step {a : Answer} {w' : Session} (h : Inv k w) (hs : w.Step a w') : ∃ k', Inv k' w' := by
  obtain ⟨hstep, hfit⟩ := hs
  cases a with
  | wrote status written clock =>
    obtain ⟨hstage, rfl⟩ := Client.step_wrote hstep
    simpa [Answer.delivered] using h.afterWrite hstage status written clock
  | polled proc clock clock' =>
    obtain ⟨hstage, rfl⟩ := Client.step_polled hstep
    exact ⟨k, by simpa [Answer.delivered, Answer.taken] using h.afterPoll hstage proc clock clock'⟩
  | received status data flags more =>
    obtain ⟨hstage, rfl⟩ := Client.step_received hstep
    simpa [Answer.taken] using h.afterRead hstage status data flags more hfit
  | keyHit hit =>
    obtain ⟨hstage, rfl⟩ := Client.step_keyHit hstep
    exact ⟨k, by simpa [Answer.delivered, Answer.taken] using h.afterKey hstage hit⟩

end Steps

theorem exists_inv {w : Session} (h : w.Reachable) : ∃ k, Inv k w := by
  induction h with
  | refl => exact ⟨0, inv_start⟩
  | tail _ hs ih =>
    obtain ⟨k, hk⟩ := ih
    obtain ⟨a, ha⟩ := hs
    exact hk.step ha

/-- A client that has not reported a byte has got the start of the answers. -/
theorem Inv.got_prefix {k : ℕ} {w : Session} (h : Inv k w) (hbad : ∀ i, w.client.stage ≠ .stopped (.badData i)) :
    w.got <+: replies (k + 1) := by
  rw [replies_succ]
  cases h.round with
  | write _ hseq hn hsent hgot => exact hgot ▸ List.prefix_append _ _
  | reading _ hseq hn htotal hsent hgot =>
    rw [hgot, hseq]
    exact List.prefix_append_right_inj _ |>.2 (List.take_prefix _ _)
  | key _ hsent hgot => exact hgot ▸ List.prefix_append _ _
  | stopped r _ hr hgot =>
    obtain ⟨t, ht⟩ := hgot
    rw [ht]
    exact List.prefix_append_right_inj _ |>.2 (List.take_prefix _ _)
  | bad i hstage => exact absurd hstage (hbad i)

/-- A counted round's answer has arrived in full. -/
theorem Inv.counted {k : ℕ} {w : Session} (h : Inv k w) : replies k <+: w.got := by
  cases h.round with
  | write _ hseq hn hsent hgot => exact hgot ▸ List.prefix_refl _
  | reading _ hseq hn htotal hsent hgot => exact hgot ▸ List.prefix_append _ _
  | key _ hsent hgot => exact hgot ▸ List.prefix_refl _
  | stopped r _ hr hgot =>
    obtain ⟨t, ht⟩ := hgot
    exact ht ▸ List.prefix_append _ _
  | bad i _ x hgot => exact hgot ▸ List.prefix_append _ _

theorem Inv.bad {k i : ℕ} {w : Session} (h : Inv k w) (hstage : w.client.stage = .stopped (.badData i)) :
    ∃ x, w.got = replies k ++ x ∧ i < (response (BitVec.ofNat 8 k)).length ∧ i < x.length ∧
      x.take i = (response (BitVec.ofNat 8 k)).take i ∧ x[i]? ≠ (response (BitVec.ofNat 8 k))[i]? := by
  cases h.round with
  | bad j hj x hgot hi hx hfirst hbad =>
    rw [hstage] at hj
    cases hj
    exact ⟨x, hgot, hi, hx, hfirst, hbad⟩
  | write hs => simp [hstage] at hs
  | reading hs => simp [hstage] at hs
  | key hs => simp [hstage] at hs
  | stopped r hs hr =>
    rw [hstage] at hs
    cases hs
    exact absurd rfl (hr i)

/-- A byte that differs from its answer is in no run of answers. -/
theorem not_prefix_of_bad {k i : ℕ} {got x : List Byte} (hgot : got = replies k ++ x)
    (hi : i < (response (BitVec.ofNat 8 k)).length) (hx : i < x.length)
    (hbad : x[i]? ≠ (response (BitVec.ofNat 8 k))[i]?) (m : ℕ) : ¬ got <+: replies m := by
  intro hpre
  obtain ⟨t, ht⟩ := hpre.trans (replies_initial (le_max_left m (k + 1)))
  obtain ⟨u, hu⟩ := replies_initial (le_max_right m (k + 1))
  have hx' : (replies (max m (k + 1)))[(replies k).length + i]? = x[i]? := by
    rw [← ht, hgot, List.append_assoc, List.getElem?_append_right (by omega), Nat.add_sub_cancel_left,
      List.getElem?_append_left hx]
  have hr : (replies (max m (k + 1)))[(replies k).length + i]? = (response (BitVec.ofNat 8 k))[i]? := by
    rw [← hu, replies_succ, List.append_assoc, List.getElem?_append_right (by omega), Nat.add_sub_cancel_left,
      List.getElem?_append_left hi]
  exact hbad (hx'.symm.trans hr)

end NioApps.Stress
