import NioApps.Proofs.LockStep

/-! HSIONET cannot get stuck: from every state that it reaches with its connection still
open, the round can be completed, even if no PROC interrupt is ever seen again. -/

namespace NioApps.Stress

open Pipe

/-- Anything but a poll that sees the interrupt. -/
def Event.quiet (e : Event) : Prop := ∀ clock clock', e ≠ .call (.polled true clock clock')

/-- A run without the interrupt. -/
def World.Quietly (w w' : World) : Prop := ∃ es, w.Run es w' ∧ ∀ e ∈ es, e.quiet

namespace World.Quietly

variable {w w' w'' : World}

theorem refl (w : World) : w.Quietly w := ⟨[], .nil w, by simp⟩

theorem tail {e : Event} (h : w.Quietly w') (hs : w'.Step e w'') (he : e.quiet) : w.Quietly w'' := by
  obtain ⟨es, hrun, hes⟩ := h
  refine ⟨es ++ [e], hrun.step hs, fun e' hmem => ?_⟩
  rcases List.mem_append.1 hmem with hmem | hmem
  · exact hes e' hmem
  · rw [List.mem_singleton.1 hmem]
    exact he

theorem trans (h : w.Quietly w') (h' : w'.Quietly w'') : w.Quietly w'' := by
  obtain ⟨es', hrun', hes'⟩ := h'
  induction hrun' with
  | nil => exact h
  | step _ hs ih =>
    exact (ih fun e' he' => hes' e' (List.mem_append_left _ he')).tail hs
      (hes' _ (List.mem_append_right _ (List.mem_singleton.2 rfl)))

/-- Steps of the server alone. -/
theorem serve {conn : Conn Byte Byte} (h : Relation.ReflTransGen (Conn.Serve chunks) w.conn conn) :
    w.Quietly { w with conn } := by
  induction h with
  | refl => exact refl w
  | tail _ hs ih => exact ih.tail (.serve hs) fun clock clock' => by simp

theorem coupled (h : w.Quietly w') (hw : Coupled w) : Coupled w' := by
  obtain ⟨es, hrun, -⟩ := h
  exact hw.run hrun

end World.Quietly

/-- A read of one byte that is the expected one. -/
theorem Client.afterRead_byte {c : Client} {b : Byte}
    (hgood : ∀ i, (c.afterRead .ok [b] ⟨false, false⟩ false).stage ≠ .stopped (.badData i)) :
    ∃ c' : Client, c.afterRead .ok [b] ⟨false, false⟩ false = c'.test ∧ c'.rounds = c.rounds ∧ c'.n = c.n ∧
      c'.total = c.total + 1 := by
  unfold Client.afterRead at hgood ⊢
  rw [if_neg (by simp), if_neg (by simp)] at hgood ⊢
  cases hbad : c.firstBad [b] with
  | some i =>
    rw [hbad] at hgood
    exact absurd rfl (hgood _)
  | none =>
    dsimp only
    split_ifs <;> exact ⟨_, rfl, rfl, rfl, rfl⟩

/-- The test at the end of a read. -/
theorem Client.test_cases (c : Client) :
    (c.test.stage = .key ∧ c.test.rounds = c.rounds + 1) ∨
      (c.test.stage = .poll ∧ c.test.rounds = c.rounds ∧ c.test.n = c.n ∧ c.test.total = c.total ∧ c.total < c.n) := by
  unfold Client.test
  split_ifs with h
  · exact Or.inr ⟨rfl, rfl, rfl, rfl, h⟩
  · exact Or.inl ⟨rfl, rfl⟩

variable {w : World}

/-- The client gets at least one byte of the answer it waits for. -/
theorem read_some (hw : Coupled w) (hstage : w.session.client.stage = .read) (hopen : w.conn.closed = false) :
    ∃ w', w.Quietly w' ∧ w'.conn.closed = false ∧
      (w'.session.client.stage = .key ∧ w'.session.client.rounds = w.session.client.rounds + 1 ∨
        w'.session.client.stage = .poll ∧ w'.session.client.rounds = w.session.client.rounds ∧
          w'.session.client.n = w.session.client.n ∧ w'.session.client.total = w.session.client.total + 1 ∧
            w'.session.client.total < w'.session.client.n) := by
  obtain ⟨k, hk⟩ := hw.session
  cases hk.round with
  | reading _ hseq hn htotal hsent hgot =>
    have hrun : w.session.running := fun r => by simp [hstage]
    have hwhole := (hw.conn hrun).whole hopen
    have howed : w.conn.owed chunks ≠ [] := by
      intro hnil
      have hlen := congrArg List.length hwhole
      rw [hnil, hsent, List.append_nil, hgot, List.length_append, List.length_take] at hlen
      change _ = (replies (k + 1)).length at hlen
      rw [replies_succ, List.length_append, ← hseq] at hlen
      omega
    obtain ⟨conn, hserve, hopen', hdown, -⟩ := Conn.exists_serve_down chunks_solid hw.solid hopen howed
    obtain ⟨b, rest, hb⟩ := List.exists_cons_of_ne_nil hdown
    have hquiet : w.Quietly { w with conn } := .serve hserve
    have hw' : Coupled { w with conn } := hquiet.coupled hw
    -- one byte is enough
    have hread : Answers w.session conn (.received .ok (conn.down.take 1) ⟨false, false⟩ false) (conn.receive 1) :=
      .read 1 ⟨false, false⟩ false (by omega) (hk.roff fun i => by simp [hstage]) (by simp)
    rw [hb, List.take_succ_cons, List.take_zero] at hread
    have hcall : w.session.Step (.received .ok [b] ⟨false, false⟩ false) _ :=
      .step (c := w.session.client.afterRead .ok [b] ⟨false, false⟩ false) (by simp only [Client.step, hstage])
        (by change 1 ≤ _; omega)
    have hstep := World.Step.call (w := { w with conn }) hcall hread
    obtain ⟨c', hc', hrounds, hn', htotal'⟩ := Client.afterRead_byte (hw'.step hstep).good
    refine ⟨_, hquiet.tail hstep fun clock clock' => by simp, hopen', ?_⟩
    dsimp only
    rw [hc', ← hrounds, ← hn', ← htotal']
    rcases c'.test_cases with hkey | ⟨h1, h2, h3, h4, h5⟩
    · exact Or.inl hkey
    · exact Or.inr ⟨h1, h2, h3, h4, by omega⟩
  | write hs => simp [hstage] at hs
  | key hs => simp [hstage] at hs
  | stopped r hs => simp [hstage] at hs
  | bad i hs => simp [hstage] at hs

theorem sixty_ticks (last : Byte) : ¬ (last + 60 - last < 60) := by bv_omega

/-- Without the interrupt the clock makes the client look again. -/
theorem look_again (hstage : w.session.client.stage = .poll) :
    ∃ w', w.Quietly w' ∧ w'.conn = w.conn ∧ w'.session.client.stage = .read ∧
      w'.session.client.rounds = w.session.client.rounds ∧ w'.session.client.n = w.session.client.n ∧
        w'.session.client.total = w.session.client.total := by
  let clock := w.session.client.last + 60
  have hlate : ¬ (clock - w.session.client.last < 60) := sixty_ticks w.session.client.last
  have hlook : w.session.client.afterPoll false clock clock =
      { w.session.client with pending := false, last := clock, stage := .read } := by
    rw [Client.afterPoll]
    exact if_neg fun h => hlate h.2
  have hcall : w.session.Step (.polled false clock clock) _ :=
    .step (by simp only [Client.step, hstage, hlook]; rfl) (Nat.zero_le _)
  exact ⟨_, (World.Quietly.refl w).tail (.call hcall (.polled false clock clock)) fun _ _ => by simp, rfl, rfl, rfl, rfl, rfl⟩

/-- The rest of a round from a read on. -/
theorem finish_reads (m : ℕ) (hw : Coupled w) (hm : w.session.client.n - w.session.client.total ≤ m)
    (hstage : w.session.client.stage = .read) (hopen : w.conn.closed = false) :
    ∃ w', w.Quietly w' ∧ w'.conn.closed = false ∧ w'.session.client.stage = .key ∧
      w'.session.client.rounds = w.session.client.rounds + 1 := by
  induction m generalizing w with
  | zero =>
    obtain ⟨k, hk⟩ := hw.session
    cases hk.round with
    | reading _ hseq hn htotal => omega
    | write hs => simp [hstage] at hs
    | key hs => simp [hstage] at hs
    | stopped r hs => simp [hstage] at hs
    | bad i hs => simp [hstage] at hs
  | succ m ih =>
    obtain ⟨w₁, h₁, hopen₁, ⟨hkey, hrounds⟩ | ⟨hpoll, hrounds, hn, htotal, hlt⟩⟩ := read_some hw hstage hopen
    · exact ⟨w₁, h₁, hopen₁, hkey, hrounds⟩
    · obtain ⟨w₂, h₂, hconn, hread, hrounds₂, hn₂, htotal₂⟩ := look_again hpoll
      have hw₂ := h₂.coupled (h₁.coupled hw)
      obtain ⟨w₃, h₃, hopen₃, hkey, hrounds₃⟩ := ih hw₂ (by omega) hread (by rw [hconn, hopen₁])
      exact ⟨w₃, (h₁.trans h₂).trans h₃, hopen₃, hkey, by rw [hrounds₃, hrounds₂, hrounds]⟩

theorem finish_polls (hw : Coupled w) (hstage : w.session.client.stage = .poll) (hopen : w.conn.closed = false) :
    ∃ w', w.Quietly w' ∧ w'.conn.closed = false ∧ w'.session.client.stage = .key ∧
      w'.session.client.rounds = w.session.client.rounds + 1 := by
  obtain ⟨w₁, h₁, hconn, hread, hrounds, -⟩ := look_again hstage
  obtain ⟨w₂, h₂, hopen₂, hkey, hrounds₂⟩ := finish_reads _ (h₁.coupled hw) le_rfl hread (by rw [hconn, hopen])
  exact ⟨w₂, h₁.trans h₂, hopen₂, hkey, by rw [hrounds₂, hrounds]⟩

/-- The write of a round. -/
theorem write_request (hw : Coupled w) (hstage : w.session.client.stage = .write) (hopen : w.conn.closed = false) :
    ∃ w', w.Quietly w' ∧ w'.conn.closed = false ∧ w'.session.client.stage = .poll ∧
      w'.session.client.rounds = w.session.client.rounds := by
  obtain ⟨k, hk⟩ := hw.session
  cases hk.round with
  | write _ hseq hn hsent hgot =>
    have hpos : 0 < w.session.client.n := by
      rw [hn]
      exact length_response_pos _
    have hwrote : w.session.client.afterWrite .ok 1 0 =
        { w.session.client with woff := w.session.client.woff + 1, total := 0, pending := true, last := 0, stage := .poll } := by
      rw [Client.afterWrite, if_neg (by simp), if_neg (by simp)]
      exact if_pos hpos
    have hcall : w.session.Step (.wrote .ok 1 0) _ :=
      .step (by simp only [Client.step, hstage, hwrote]; rfl) (Nat.zero_le _)
    refine ⟨_, (World.Quietly.refl w).tail (.call hcall (.taken 0 hk.woff)) fun _ _ => by simp, ?_, rfl, rfl⟩
    simp [Conn.send, hopen]
  | reading hs => simp [hstage] at hs
  | key hs => simp [hstage] at hs
  | stopped r hs => simp [hstage] at hs
  | bad i hs => simp [hstage] at hs

theorem round_completes {es : List Event} (h : World.start.Run es w) (hrun : w.session.running)
    (hkey : w.session.client.stage ≠ .key) (hopen : w.conn.closed = false) :
    ∃ es' w', w.Run es' w' ∧ (∀ e ∈ es', e.quiet) ∧ w'.conn.closed = false ∧ w'.session.client.stage = .key ∧
      w'.session.client.rounds = w.session.client.rounds + 1 := by
  have hw := coupled_start.run h
  obtain ⟨w', ⟨es', hrun', hquiet⟩, hend⟩ : ∃ w', w.Quietly w' ∧ w'.conn.closed = false ∧
      w'.session.client.stage = .key ∧ w'.session.client.rounds = w.session.client.rounds + 1 := by
    cases hstage : w.session.client.stage with
    | write =>
      obtain ⟨w₁, h₁, hopen₁, hpoll, hrounds⟩ := write_request hw hstage hopen
      obtain ⟨w₂, h₂, hopen₂, hkey₂, hrounds₂⟩ := finish_polls (h₁.coupled hw) hpoll hopen₁
      exact ⟨w₂, h₁.trans h₂, hopen₂, hkey₂, by rw [hrounds₂, hrounds]⟩
    | poll => exact finish_polls hw hstage hopen
    | read => exact finish_reads _ hw le_rfl hstage hopen
    | key => exact absurd hstage hkey
    | stopped r => exact absurd hstage (hrun r)
  exact ⟨es', w', hrun', hquiet, hend⟩

/-- The first round, from the poll before its answer is read. -/
theorem round_completes_first : ∃ es w, World.Run ⟨asked, ⟨[], [], [0], false⟩⟩ es w ∧ (∀ e ∈ es, e.quiet) ∧
    w.conn.closed = false ∧ w.session.client.stage = .key ∧ w.session.client.rounds = 1 :=
  round_completes run_asked (fun r => by simp [asked]) (by simp [asked]) rfl

end NioApps.Stress
