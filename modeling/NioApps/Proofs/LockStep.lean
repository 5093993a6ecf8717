import NioApps.Sanity.Rounds

/-! HSIONET and its server over any connection: whatever the order of their steps, and
however the answers are cut up, delayed or lost, the client never sees bad data, has one
request outstanding at most, and its two offsets stay those of the streams. -/

namespace NioApps.Stress

open Pipe

theorem two_le_length_response {seq : Byte} (h : seq &&& 1 ≠ 0) : 2 ≤ (response seq).length := by
  have h7 : (seq &&& 7).toNat = seq.toNat % 8 := by
    rw [BitVec.toNat_and]
    exact Nat.and_two_pow_sub_one_eq_mod seq.toNat 3
  have h1 : (seq &&& 1).toNat = seq.toNat % 2 := by
    rw [BitVec.toNat_and]
    exact Nat.and_two_pow_sub_one_eq_mod seq.toNat 1
  have hodd : seq.toNat % 2 ≠ 0 := by
    rw [← h1]
    exact fun hzero => h (BitVec.eq_of_toNat_eq hzero)
  have hall : ∀ i < 8, i % 2 ≠ 0 → 2 ≤ lengths.getD i 0 := by decide
  rw [length_response, h7]
  exact hall _ (Nat.mod_lt _ (by decide)) (by omega)

/-- The server never writes an empty chunk. -/
theorem chunks_solid : Conn.Solid chunks := by
  intro seq
  refine ⟨by simp [chunks], fun hmem => ?_⟩
  have hpos := length_response_pos seq
  rw [chunks, List.mem_cons] at hmem
  rcases hmem with hfirst | hsecond
  · have hzero := congrArg List.length hfirst
    rw [List.length_nil, List.length_take] at hzero
    split_ifs at hzero with hseq
    · have := two_le_length_response hseq
      omega
    · omega
  · split_ifs at hsecond with hseq hlt hlt
    · have hzero := congrArg List.length (List.mem_singleton.1 hsecond)
      rw [List.length_nil, List.length_drop] at hzero
      omega
    · cases hsecond
    · exact absurd hlt (lt_irrefl _)
    · cases hsecond

/-- The client is still running. -/
def Session.running (w : Session) : Prop := ∀ r, w.client.stage ≠ .stopped r

structure Coupled (w : World) : Prop where
  session : ∃ k, Inv k w.session
  numbers : ∃ m, w.session.sent = sequence m ∧ w.session.got <+: replies m
  conn : w.session.running → w.conn.Inv chunks w.session.sent w.session.got
  solid : [] ∉ w.conn.busy
  outstanding : w.conn.outstanding ≤ 1

theorem coupled_start : Coupled .start :=
  ⟨⟨0, inv_start⟩, ⟨0, rfl, List.prefix_refl _⟩, fun _ => Conn.inv_start chunks, List.not_mem_nil, Nat.zero_le 1⟩

variable {w w' : World}

/-- What arrives is never reported: it is the next part of the answers. -/
theorem Inv.not_bad {k i : ℕ} {s : Session} (h : Inv k s) {m : ℕ} (hgot : s.got <+: replies m) :
    s.client.stage ≠ .stopped (.badData i) := by
  intro hstage
  obtain ⟨x, hx, hi, hxi, -, hne⟩ := h.bad hstage
  exact not_prefix_of_bad hx hi hxi hne m hgot

theorem Coupled.good (h : Coupled w) (i : ℕ) : w.session.client.stage ≠ .stopped (.badData i) := by
  obtain ⟨k, hk⟩ := h.session
  obtain ⟨m, -, hgot⟩ := h.numbers
  exact hk.not_bad hgot

/-- A client that is about to write has sent the numbers of the finished rounds, and has their answers. -/
theorem Inv.write {k : ℕ} {s : Session} (h : Inv k s) (hstage : s.client.stage = .write) :
    s.client.seq = BitVec.ofNat 8 k ∧ s.sent = sequence k ∧ s.got = replies k := by
  cases h.round with
  | write _ hseq hn hsent hgot => exact ⟨hseq, hsent, hgot⟩
  | reading hs => simp [hstage] at hs
  | key hs => simp [hstage] at hs
  | stopped r hs => simp [hstage] at hs
  | bad i hs => simp [hstage] at hs

/-- Before a write the client is owed nothing. -/
theorem Coupled.idle (h : Coupled w) (hstage : w.session.client.stage = .write) : w.conn.outstanding = 0 := by
  obtain ⟨k, hk⟩ := h.session
  obtain ⟨-, hsent, hgot⟩ := hk.write hstage
  have hconn := h.conn fun r => by simp [hstage]
  rw [hsent, hgot] at hconn
  exact Conn.outstanding_of_owed_nil chunks_solid h.solid hconn.owed_nil

theorem Coupled.serve {conn : Conn Byte Byte} (h : Coupled w) (hs : Conn.Serve chunks w.conn conn) :
    Coupled { w with conn } where
  session := h.session
  numbers := h.numbers
  conn hrun := (h.conn hrun).serve hs
  solid := hs.solid chunks_solid h.solid
  outstanding := hs.outstanding_le.trans h.outstanding

theorem Session.running_of_step {s : Session} {a : Answer} {c : Client} (h : s.client.step a = some c) : s.running := by
  intro r hstage
  simp [Client.step, hstage] at h

theorem stopped_of_error {s : Session} {code : Byte} {written : Word} {clock : Byte} {c : Client}
    (h : s.client.step (.wrote (.error code) written clock) = some c) : ∃ r, c.stage = .stopped r := by
  obtain ⟨-, rfl⟩ := Client.step_wrote h
  exact ⟨.write (.error code) written, by simp [Client.afterWrite]⟩

theorem Coupled.call {a : Answer} {session : Session} {conn : Conn Byte Byte} (h : Coupled w)
    (hs : w.session.Step a session) (ha : Answers w.session w.conn a conn) : Coupled ⟨session, conn⟩ := by
  obtain ⟨hstep, hfit⟩ := hs
  rename_i c
  obtain ⟨k, hk⟩ := h.session
  have hsession := hk.step (.step hstep hfit)
  have hconn := h.conn (Session.running_of_step hstep)
  obtain ⟨m, hsent, hgot⟩ := h.numbers
  -- every call but a write that is taken and a read leaves what the client has sent and got
  have hsame : a.taken w.session.client.seq = [] → a.delivered = [] → ∃ m,
      w.session.sent ++ a.taken w.session.client.seq = sequence m ∧ w.session.got ++ a.delivered <+: replies m := by
    intro htaken hnone
    rw [htaken, hnone, List.append_nil, List.append_nil]
    exact ⟨m, hsent, hgot⟩
  cases ha with
  | taken clock hoffset =>
    have hstage := (Client.step_wrote hstep).1
    have hidle := h.idle hstage
    obtain ⟨hseq, hsent, hgot⟩ := hk.write hstage
    refine ⟨hsession, ⟨k + 1, ?_, ?_⟩, fun _ => ?_, ?_, ?_⟩
    · simp [Answer.taken, sequence_succ, hsent, hseq]
    · simpa [Answer.delivered, hgot] using replies_initial (Nat.le_succ k)
    · simpa [Answer.taken, Answer.delivered] using hconn.send w.session.client.seq
    · unfold Conn.send
      split_ifs <;> exact h.solid
    · have := Conn.outstanding_send (c := w.conn) w.session.client.seq
      change (w.conn.send w.session.client.seq).outstanding ≤ 1
      omega
  | refused status written clock hrefused =>
    have htaken : (Answer.wrote status written clock).taken w.session.client.seq = [] := by
      cases status with
      | ok => simp [Answer.taken, hrefused rfl]
      | _ => rfl
    refine ⟨hsession, hsame htaken rfl, fun _ => ?_, h.solid, h.outstanding⟩
    simpa [htaken, Answer.delivered] using hconn
  | unknown code written clock =>
    have hidle := h.idle (Client.step_wrote hstep).1
    obtain ⟨r, hr⟩ := stopped_of_error hstep
    refine ⟨hsession, hsame rfl rfl, fun hrun' => absurd hr (hrun' r), ?_, ?_⟩
    · unfold Conn.send
      split_ifs <;> exact h.solid
    · have := Conn.outstanding_send (c := w.conn) w.session.client.seq
      change (w.conn.send w.session.client.seq).outstanding ≤ 1
      omega
  | polled proc clock clock' =>
    refine ⟨hsession, hsame rfl rfl, fun _ => ?_, h.solid, h.outstanding⟩
    simpa [Answer.taken, Answer.delivered] using hconn
  | read n flags more hn hoffset heof =>
    refine ⟨hsession, ⟨m, ?_, ?_⟩, fun _ => ?_, h.solid, h.outstanding⟩
    · simpa [Answer.taken] using hsent
    · have := hconn.arrived n
      rwa [hsent] at this
    · simpa [Answer.taken, Answer.delivered] using hconn.receive n
  | unread status data flags more hstatus =>
    have hnone : (Answer.received status data flags more).delivered = [] := by
      cases status with
      | ok => exact absurd rfl hstatus
      | _ => rfl
    refine ⟨hsession, hsame rfl hnone, fun _ => ?_, h.solid, h.outstanding⟩
    simpa [hnone, Answer.taken] using hconn
  | keyHit hit =>
    refine ⟨hsession, hsame rfl rfl, fun _ => ?_, h.solid, h.outstanding⟩
    simpa [Answer.taken, Answer.delivered] using hconn

theorem Coupled.step {e : Event} (h : Coupled w) (hs : w.Step e w') : Coupled w' := by
  cases hs with
  | serve hserve => exact h.serve hserve
  | call hstep hanswer => exact h.call hstep hanswer

theorem Coupled.run {es : List Event} (h : Coupled w) (hr : w.Run es w') : Coupled w' := by
  induction hr with
  | nil => exact h
  | step _ hs ih => exact ih.step hs

theorem lock_step {es : List Event} (h : World.start.Run es w) :
    (∀ i, w.session.client.stage ≠ .stopped (.badData i)) ∧ w.conn.outstanding ≤ 1 ∧
      (∃ m, w.session.sent = sequence m ∧ w.session.got <+: replies m ∧
        (w.session.running → w.conn.closed = false → w.session.got ++ w.conn.owed chunks = replies m)) ∧
          w.session.client.woff = BitVec.ofNat 32 w.session.sent.length ∧
            w.session.client.roff = BitVec.ofNat 32 w.session.got.length := by
  have hw := coupled_start.run h
  obtain ⟨k, hk⟩ := hw.session
  obtain ⟨m, hsent, hgot⟩ := hw.numbers
  refine ⟨hw.good, hw.outstanding, ⟨m, hsent, hgot, fun hrun hopen => ?_⟩, hk.woff, hk.roff hw.good⟩
  rw [(hw.conn hrun).whole hopen, hsent]
  rfl

/-- The first request is on its way. -/
def asked : Session := ⟨{ Client.start with woff := 1, pending := true, stage := .poll }, [0], []⟩

def waiting : Session := ⟨{ Client.start with woff := 1, last := 7, stage := .read }, [0], []⟩

/-- The first round is done. -/
def answered : Session :=
  ⟨{ Client.start with woff := 1, roff := 1, rounds := 1, last := 7, total := 1, stage := .key }, [0], [0]⟩

/-- The answer to it has arrived. -/
theorem run_asked : World.start.Run [.call (.wrote .ok 1 0), .serve, .serve] ⟨asked, ⟨[], [], [0], false⟩⟩ := by
  have hchunks : chunks 0 = [[0]] := by decide
  have h1 : World.start.Step (.call (.wrote .ok 1 0)) ⟨asked, ⟨[0], [], [], false⟩⟩ :=
    .call (.step rfl (by decide)) (.taken 0 rfl)
  have h2 : World.Step ⟨asked, ⟨[0], [], [], false⟩⟩ .serve ⟨asked, ⟨[], [[0]], [], false⟩⟩ :=
    .serve (hchunks ▸ .take 0 [] rfl rfl rfl)
  have h3 : World.Step ⟨asked, ⟨[], [[0]], [], false⟩⟩ .serve ⟨asked, ⟨[], [], [0], false⟩⟩ :=
    .serve (.write [0] [] rfl rfl)
  exact (((World.Run.nil _).step h1).step h2).step h3

theorem run_first_round : World.start.Run
    [.call (.wrote .ok 1 0), .serve, .serve, .call (.polled true 7 7), .call (.received .ok [0] ⟨false, false⟩ false)]
    ⟨answered, .start⟩ := by
  have h4 : World.Step ⟨asked, ⟨[], [], [0], false⟩⟩ (.call (.polled true 7 7)) ⟨waiting, ⟨[], [], [0], false⟩⟩ :=
    .call (.step rfl (by decide)) (.polled true 7 7)
  have h5 : World.Step ⟨waiting, ⟨[], [], [0], false⟩⟩ (.call (.received .ok [0] ⟨false, false⟩ false))
      ⟨answered, .start⟩ :=
    .call (.step rfl (by decide)) (.read 1 ⟨false, false⟩ false (by decide) rfl (by decide))
  exact (run_asked.step h4).step h5

theorem lock_step_first_round :
    (∀ i, answered.client.stage ≠ .stopped (.badData i)) ∧ (Conn.start : Conn Byte Byte).outstanding ≤ 1 ∧
      (∃ m, answered.sent = sequence m ∧ answered.got <+: replies m ∧
        (answered.running → (Conn.start : Conn Byte Byte).closed = false →
          answered.got ++ (Conn.start : Conn Byte Byte).owed chunks = replies m)) ∧
            answered.client.woff = BitVec.ofNat 32 1 ∧ answered.client.roff = BitVec.ofNat 32 1 :=
  lock_step run_first_round

end NioApps.Stress
