import NioApps.Proofs.ChannelsRefined

/-! What a program moves through a stream, over a transport that loses requests and answers
(`streams_delivered`): a body is submitted at most once and never in part, and what is read is
a prefix of one content. `Course` says it for the calls after an OPEN; each call keeps it. -/

namespace NioApps.Resident

open Transaction

variable {τ : Type*} {srv : Server τ} {t : τ} {o : Call} {uri : List Byte}

/-! ### The calls of an IOCB in a run -/

def callsIn (x : Byte) (run : List (Done × List Submission)) : List (Done × List Submission) :=
  run.filter fun e => e.1.call.x = x

def submitted (x : Byte) (run : List (Done × List Submission)) : List Submission := (callsIn x run).flatMap Prod.snd

def putIn (x : Byte) (run : List (Done × List Submission)) : List Byte := putBytes ((callsIn x run).map Prod.fst)

def gotIn (x : Byte) (run : List (Done × List Submission)) : List Byte := getBytes ((callsIn x run).map Prod.fst)

section Calls

variable {run : List (Done × List Submission)} {d : Done} {subs : List Submission} {x : Byte}

theorem callsIn_own (hx : d.call.x = x) : callsIn x (run ++ [(d, subs)]) = callsIn x run ++ [(d, subs)] := by
  simp [callsIn, List.filter_append, hx]

theorem callsIn_other (hx : d.call.x ≠ x) : callsIn x (run ++ [(d, subs)]) = callsIn x run := by
  simp [callsIn, List.filter_append, hx]

theorem submitted_own (hx : d.call.x = x) : submitted x (run ++ [(d, subs)]) = submitted x run ++ subs := by
  simp [submitted, callsIn_own hx]

theorem putIn_own (hx : d.call.x = x) : putIn x (run ++ [(d, subs)]) = putIn x run ++ putByte d.call d.y := by
  rw [putIn, callsIn_own hx, List.map_append, List.map_singleton, putBytes_snoc, putIn]

theorem gotIn_own (hx : d.call.x = x) : gotIn x (run ++ [(d, subs)]) = gotIn x run ++ getByte d.call d.y d.a := by
  rw [gotIn, callsIn_own hx, List.map_append, List.map_singleton, getBytes_snoc, gotIn]

end Calls

/-! ### The course of a stream -/

/-- What the stream that `o` opened gives to read after the calls `run`, before which the
server was in `t`: the content of the URI, or the answer to the body, which is all that was
put and the one thing submitted. -/
inductive Content (srv : Server τ) (t : τ) (o : Call) (uri : List Byte) (run : List (Done × List Submission)) :
    List Byte → Prop
  | page (hmode : o.mode = 4) (hsent : submitted o.x run = []) (hput : putIn o.x run = []) :
      Content srv t o uri run (srv.get t uri)
  | answer {run₁ run₂ : List (Done × List Submission)} {d : Done} {sub : Submission} (hmode : o.mode ≠ 4)
      (hrun : run = run₁ ++ (d, [sub]) :: run₂) (hx : d.call.x = o.x) (hsent : submitted o.x run = [sub])
      (hsub : sub = ⟨openMethod o.mode, uri, putIn o.x run⟩) :
      Content srv t o uri run (srv.submit (srv.run t (run₁.flatMap Prod.snd)) sub).2

/-- The stream that `o` opened, after the calls `run`. -/
inductive Course (srv : Server τ) (t : τ) (o : Call) (uri : List Byte) (run : List (Done × List Submission)) :
    Stage → Prop
  | writing (hmode : o.mode ≠ 4) (hsent : submitted o.x run = []) (hgot : gotIn o.x run = []) :
      Course srv t o uri run (.writing (putIn o.x run))
  | reading {content rest : List Byte} (hcontent : Content srv t o uri run content) (hgot : content = gotIn o.x run ++ rest) :
      Course srv t o uri run (.reading rest)
  | broken (hmode : o.mode ≠ 4) (hgot : gotIn o.x run = [])
      (hsent : submitted o.x run = [] ∨ submitted o.x run = [⟨openMethod o.mode, uri, putIn o.x run⟩]) :
      Course srv t o uri run .broken

section Course

variable {run : List (Done × List Submission)} {d : Done} {subs : List Submission} {content : List Byte} {stage : Stage}

theorem Content.keeps (h : Content srv t o uri run content) (hsent : submitted o.x (run ++ [(d, subs)]) = submitted o.x run)
    (hput : putIn o.x (run ++ [(d, subs)]) = putIn o.x run) : Content srv t o uri (run ++ [(d, subs)]) content := by
  cases h with
  | page hmode hnone hbody => exact .page hmode (hsent.trans hnone) (hput.trans hbody)
  | @answer run₁ run₂ d' sub hmode hrun hx hone hsub =>
    have hrun' : run ++ [(d, subs)] = run₁ ++ (d', [sub]) :: (run₂ ++ [(d, subs)]) := by
      rw [hrun, List.append_assoc, List.cons_append]
    exact .answer hmode hrun' hx (hsent.trans hone) (by rw [hput]; exact hsub)

/-- A call after which nothing more is submitted, put or read. -/
theorem Course.keeps (h : Course srv t o uri run stage) (hsent : submitted o.x (run ++ [(d, subs)]) = submitted o.x run)
    (hput : putIn o.x (run ++ [(d, subs)]) = putIn o.x run) (hget : gotIn o.x (run ++ [(d, subs)]) = gotIn o.x run) :
    Course srv t o uri (run ++ [(d, subs)]) stage := by
  cases h with
  | writing hmode hnone hgot =>
    rw [← hput]
    exact .writing hmode (hsent.trans hnone) (hget.trans hgot)
  | reading hcontent hgot => exact .reading (hcontent.keeps hsent hput) (by rw [hget]; exact hgot)
  | broken hmode hgot hwas => exact .broken hmode (hget.trans hgot) (by rw [hsent, hput]; exact hwas)

theorem Course.other (h : Course srv t o uri run stage) (hx : d.call.x ≠ o.x) : Course srv t o uri (run ++ [(d, subs)]) stage := by
  apply h.keeps
  · rw [submitted, callsIn_other hx, submitted]
  · rw [putIn, callsIn_other hx, putIn]
  · rw [gotIn, callsIn_other hx, gotIn]

theorem Course.still (h : Course srv t o uri run stage) (hx : d.call.x = o.x) (hput : putByte d.call d.y = [])
    (hget : getByte d.call d.y d.a = []) : Course srv t o uri (run ++ [(d, [])]) stage := by
  apply h.keeps
  · rw [submitted_own hx, List.append_nil]
  · rw [putIn_own hx, hput, List.append_nil]
  · rw [gotIn_own hx, hget, List.append_nil]

variable {st : Stream}

/-- A call that ends the body, up to the byte that it returns. -/
theorem Course.settles_reading (h : Course srv t o uri run st.stage) (hmode : st.mode = o.mode) (huri : st.uri = uri)
    (hx : d.call.x = o.x) (hput : putByte d.call d.y = []) {rest : List Byte}
    (hs : Settles srv (srv.run t (run.flatMap Prod.snd)) st subs (.reading rest)) :
    Content srv t o uri (run ++ [(d, subs)]) (gotIn o.x run ++ rest) := by
  have hbody : putIn o.x (run ++ [(d, subs)]) = putIn o.x run := by rw [putIn_own hx, hput, List.append_nil]
  cases hs with
  | read hstage =>
    rw [hstage] at h
    cases h with
    | reading hcontent hgot =>
      rw [← hgot]
      exact hcontent.keeps (by rw [submitted_own hx, List.append_nil]) hbody
  | sent hstage =>
    rw [hstage] at h
    cases h with
    | writing hne hsent hgot =>
      have hsub : st.submission (putIn o.x run) =
          ⟨openMethod o.mode, uri, putIn o.x (run ++ [(d, [st.submission (putIn o.x run)])])⟩ := by
        rw [hbody, Stream.submission, hmode, huri]
      rw [hgot, List.nil_append]
      exact .answer hne rfl hx (by rw [submitted_own hx, hsent, List.nil_append]) hsub

theorem Course.settles (h : Course srv t o uri run st.stage) (hmode : st.mode = o.mode) (huri : st.uri = uri)
    (hx : d.call.x = o.x) (hput : putByte d.call d.y = []) (hget : getByte d.call d.y d.a = [])
    (hs : Settles srv (srv.run t (run.flatMap Prod.snd)) st subs stage) : Course srv t o uri (run ++ [(d, subs)]) stage := by
  have hbody : putIn o.x (run ++ [(d, subs)]) = putIn o.x run := by rw [putIn_own hx, hput, List.append_nil]
  have hgot : gotIn o.x (run ++ [(d, subs)]) = gotIn o.x run := by rw [gotIn_own hx, hget, List.append_nil]
  cases stage with
  | writing body => cases hs
  | reading rest => exact .reading (h.settles_reading hmode huri hx hput hs) (by rw [hgot])
  | broken =>
    cases hs with
    | broken hstage =>
      rw [hstage] at h
      exact h.still hx hput hget
    | lost hstage =>
      rw [hstage] at h
      cases h with
      | writing hne hsent hread =>
        exact .broken hne (hgot.trans hread) (.inl (by rw [submitted_own hx, hsent, List.nil_append]))
    | unsure hstage =>
      rw [hstage] at h
      cases h with
      | writing hne hsent hread =>
        refine .broken hne (hgot.trans hread) (.inr ?_)
        rw [submitted_own hx, hsent, List.nil_append, hbody, Stream.submission, hmode, huri]

/-- One call of the stream, and what its result says. -/
theorem Course.step (h : Course srv t o uri run st.stage) (hmode : st.mode = o.mode) (huri : st.uri = uri)
    (hx : d.call.x = o.x) {st' : Option Stream} (hdoes : Does srv (srv.run t (run.flatMap Prod.snd)) st d subs st') :
    ∃ stage, Course srv t o uri (run ++ [(d, subs)]) stage ∧ (d.call.op ≠ .close → st' = some (st.to stage)) ∧
      (d.call.op = .close → d.y = 1 → ∃ rest, stage = .reading rest) ∧
      (d.call.op = .get ∨ d.call.op = .status → d.y = 0x88 → stage = .reading []) := by
  have hput (hop : d.call.op ≠ .put) : putByte d.call d.y = [] := putByte_other hop
  have hget (hop : d.call.op ≠ .get) : getByte d.call d.y d.a = [] := getByte_other hop
  cases hdoes with
  | twice hop hy =>
    exact ⟨st.stage, h.still hx (hput (by simp [hop])) (hget (by simp [hop])), by simp [Stream.to], by simp [hop],
      by simp [hop]⟩
  | put hop hs hy =>
    have hbyte : putByte d.call d.y = [d.call.a] := if_pos ⟨hop, hy⟩
    have hbody : putIn o.x (run ++ [(d, [])]) = putIn o.x run ++ [d.call.a] := by rw [putIn_own hx, hbyte]
    rw [hs] at h
    cases h with
    | writing hne hsent hgot =>
      refine ⟨_, ?_, fun _ => rfl, by simp [hop], by simp [hop]⟩
      rw [← hbody]
      refine .writing hne ?_ ?_
      · rw [submitted_own hx, hsent, List.append_nil]
      · rw [gotIn_own hx, hgot, hget (by simp [hop]), List.append_nil]
  | putFailed hop hs hy =>
    rw [hs] at h
    cases h with
    | writing hne hsent hgot =>
      refine ⟨.broken, .broken hne ?_ (.inl ?_), fun _ => rfl, by simp [hop], by simp [hop]⟩
      · rw [gotIn_own hx, hgot, hget (by simp [hop]), List.append_nil]
      · rw [submitted_own hx, hsent, List.append_nil]
  | putRefused hop hs hy =>
    have hbyte : putByte d.call d.y = [] := if_neg fun h => hy h.2
    exact ⟨st.stage, h.still hx hbyte (hget (by simp [hop])), by simp [Stream.to], by simp [hop], by simp [hop]⟩
  | getRefused hop hmode8 hy =>
    have hbyte : getByte d.call d.y d.a = [] := if_neg fun h => by simp [hy] at h
    exact ⟨st.stage, h.still hx (hput (by simp [hop])) hbyte, by simp [Stream.to], by simp [hop], by simp [hy]⟩
  | got hop hmode8 hs hy =>
    have hbyte : getByte d.call d.y d.a = [d.a] := if_pos ⟨hop, hy⟩
    have hcontent := h.settles_reading hmode huri hx (hput (by simp [hop])) hs
    refine ⟨_, .reading hcontent ?_, fun _ => rfl, by simp [hop], by simp [hy]⟩
    rw [gotIn_own hx, hbyte, List.append_assoc, List.singleton_append]
  | ended hop hmode8 hs hy =>
    have hbyte : getByte d.call d.y d.a = [] := if_neg fun h => by simp [hy] at h
    exact ⟨_, h.settles hmode huri hx (hput (by simp [hop])) hbyte hs, fun _ => rfl, by simp [hop], fun _ _ => rfl⟩
  | getFailed hop hmode8 hs hy =>
    have hbyte : getByte d.call d.y d.a = [] := if_neg fun h => by simp [hy] at h
    exact ⟨_, h.settles hmode huri hx (hput (by simp [hop])) hbyte hs, fun _ => rfl, by simp [hop], by simp [hy]⟩
  | status hop hs hok hend =>
    have hcourse := h.settles hmode huri hx (hput (by simp [hop])) (hget (by simp [hop])) hs
    exact ⟨_, hcourse, fun _ => rfl, by simp [hop], fun _ => hend⟩
  | close hop hs hok =>
    have hcourse := h.settles hmode huri hx (hput (by simp [hop])) (hget (by simp [hop])) hs
    exact ⟨_, hcourse, by simp [hop], fun _ => hok, by simp [hop]⟩

end Course

/-! ### Runs -/

section Runs

variable {s₀ s s' : Channels τ} {run : List (Done × List Submission)} {d : Done} {subs : List Submission}

theorem Server.run_submitted (run : List (Done × List Submission)) (d : Done) (subs : List Submission) (t : τ) :
    srv.run t ((run ++ [(d, subs)]).flatMap Prod.snd) = srv.run (srv.run t (run.flatMap Prod.snd)) subs := by
  rw [List.flatMap_append, Server.run_append, List.flatMap_singleton]

theorem Channels.Step.server_eq (h : Channels.Step srv s d subs s') : s'.server = srv.run s.server subs := by
  cases h <;> rfl

theorem Channels.Run.server_eq (h : Channels.Run srv s₀ run s) : s.server = srv.run s₀.server (run.flatMap Prod.snd) := by
  induction h with
  | nil => rfl
  | snoc _ hstep ih => rw [hstep.server_eq, ih, Server.run_submitted]

theorem Channels.Run.last (h : Channels.Run srv s₀ (run ++ [(d, subs)]) s) :
    ∃ s₁, Channels.Run srv s₀ run s₁ ∧ Channels.Step srv s₁ d subs s := by
  generalize hrun : run ++ [(d, subs)] = whole at h
  cases h with
  | nil => simp at hrun
  | @snoc run' d' subs' s₁ _ hbefore hstep =>
    obtain ⟨rfl, hlast⟩ := List.append_inj' hrun rfl
    cases hlast
    exact ⟨s₁, hbefore, hstep⟩

/-- An OPEN that returned 1 was the start of a stream. -/
theorem Channels.Step.opening (h : Channels.Step srv s d subs s') (hop : d.call.op = .openIocb) (hy : d.y = 1) :
    subs = [] ∧ ∃ uri, Names d.call uri ∧ s'.streams d.call.x = some (srv.stream s.server d.call.mode uri) := by
  cases h with
  | @opened uri _ _ hname _ => exact ⟨rfl, uri, hname, Function.update_self ..⟩
  | failed _ hne => exact absurd hy hne
  | did _ hdoes =>
    cases hdoes with
    | twice _ hy' => simp [hy] at hy'
    | put hop' | putFailed hop' | putRefused hop' | getRefused hop' | got hop' | ended hop' | getFailed hop' | status hop'
      | close hop' => simp [hop] at hop'

theorem Channels.Step.own (h : Channels.Step srv s d subs s') {st : Stream} (hst : s.streams d.call.x = some st) :
    ∃ st', Does srv s.server st d subs st' ∧ s'.streams d.call.x = st' := by
  cases h with
  | opened _ hnone => simp [hst] at hnone
  | failed hnone => simp [hst] at hnone
  | @did st₁ st' _ hst₁ hdoes =>
    rw [hst] at hst₁
    cases hst₁
    exact ⟨st', hdoes, Function.update_self ..⟩

theorem Channels.Step.other (h : Channels.Step srv s d subs s') {x : Byte} (hx : x ≠ d.call.x) : s'.streams x = s.streams x := by
  cases h with
  | opened | did => exact Function.update_of_ne hx ..
  | failed => rfl

/-- Nothing has been put or read. -/
theorem Course.start (srv : Server τ) (t : τ) (o : Call) (uri : List Byte) :
    Course srv t o uri [] (srv.stream t o.mode uri).stage := by
  unfold Server.stream
  split_ifs with hmode
  · exact .reading (.page hmode rfl rfl) rfl
  · exact .writing hmode rfl rfl

variable {t : τ} {e : Done} {pre mid : List (Done × List Submission)}

theorem Channels.Run.server_after (h : Channels.Run srv s₀ (pre ++ (e, subs) :: mid) s) (hsubs : subs = []) :
    s.server = srv.run (srv.run s₀.server (pre.flatMap Prod.snd)) (mid.flatMap Prod.snd) := by
  rw [h.server_eq, List.flatMap_append, Server.run_append, List.flatMap_cons, hsubs, List.nil_append]

/-- The stream that `e` opened, while it is not closed. -/
theorem Channels.Run.course (h : Channels.Run srv s₀ (pre ++ (e, subs) :: mid) s) (hop : e.call.op = .openIocb) (hy : e.y = 1)
    (hlive : ∀ x ∈ mid, x.1.call.x = e.call.x → x.1.call.op ≠ .close) :
    subs = [] ∧ ∃ uri st, Names e.call uri ∧ s.streams e.call.x = some st ∧ st.mode = e.call.mode ∧ st.uri = uri ∧
      Course srv (srv.run s₀.server (pre.flatMap Prod.snd)) e.call uri mid st.stage := by
  induction mid using List.reverseRecOn generalizing s with
  | nil =>
    obtain ⟨s₁, hpre, hstep⟩ := Channels.Run.last h
    obtain ⟨hsubs, uri, hname, hst⟩ := hstep.opening hop hy
    rw [hpre.server_eq] at hst
    exact ⟨hsubs, uri, _, hname, hst, rfl, rfl, .start ..⟩
  | append_singleton mid x ih =>
    obtain ⟨d, subs'⟩ := x
    rw [← List.cons_append, ← List.append_assoc] at h
    obtain ⟨s₁, hrun, hstep⟩ := Channels.Run.last h
    obtain ⟨hsubs, uri, st, hname, hst, hmode, huri, hcourse⟩ := ih hrun fun x hx => hlive x (by simp [hx])
    refine ⟨hsubs, uri, ?_⟩
    by_cases hx : d.call.x = e.call.x
    · rw [← hx] at hst
      obtain ⟨st', hdoes, hst'⟩ := hstep.own hst
      rw [hrun.server_after hsubs] at hdoes
      obtain ⟨stage, hcourse', hopen, -⟩ := hcourse.step hmode huri hx hdoes
      rw [hopen (hlive (d, subs') (by simp) hx), hx] at hst'
      exact ⟨st.to stage, hname, hst', hmode, huri, hcourse'⟩
    · exact ⟨st, hname, (hstep.other (Ne.symm hx)).trans hst, hmode, huri, hcourse.other hx⟩

/-- What the last of the calls says about the `stage` it leaves. -/
structure Leaves (x : Byte) (run : List (Done × List Submission)) (stage : Stage) : Prop where
  closed : ∀ e, run.getLast? = some e → e.1.call.x = x → e.1.call.op = .close → e.1.y = 1 →
    ∃ rest, stage = .reading rest
  eof : ∀ e, run.getLast? = some e → e.1.call.x = x → e.1.call.op = .get ∨ e.1.call.op = .status → e.1.y = 0x88 →
    stage = .reading []

/-- Its last call may close the stream. -/
theorem Channels.Run.delivered (h : Channels.Run srv s₀ (pre ++ (e, subs) :: mid) s) (hop : e.call.op = .openIocb) (hy : e.y = 1)
    (hlive : ∀ x ∈ mid.dropLast, x.1.call.x = e.call.x → x.1.call.op ≠ .close) :
    ∃ uri stage, Names e.call uri ∧ Course srv (srv.run s₀.server (pre.flatMap Prod.snd)) e.call uri mid stage ∧
      Leaves e.call.x mid stage := by
  induction mid using List.reverseRecOn with
  | nil =>
    obtain ⟨-, uri, st, hname, -, -, -, hcourse⟩ := h.course hop hy (by simp)
    exact ⟨uri, st.stage, hname, hcourse, by simp, by simp⟩
  | append_singleton mid x =>
    obtain ⟨d, subs'⟩ := x
    rw [List.dropLast_concat] at hlive
    rw [← List.cons_append, ← List.append_assoc] at h
    obtain ⟨s₁, hrun, hstep⟩ := Channels.Run.last h
    obtain ⟨hsubs, uri, st, hname, hst, hmode, huri, hcourse⟩ := hrun.course hop hy hlive
    by_cases hx : d.call.x = e.call.x
    · rw [← hx] at hst
      obtain ⟨st', hdoes, -⟩ := hstep.own hst
      rw [hrun.server_after hsubs] at hdoes
      obtain ⟨stage, hcourse', -, hclosed, heof⟩ := hcourse.step hmode huri hx hdoes
      exact ⟨uri, stage, hname, hcourse', by simpa [hx] using hclosed, by simpa [hx] using heof⟩
    · exact ⟨uri, st.stage, hname, hcourse.other hx, by simp [hx], by simp [hx]⟩

end Runs

end NioApps.Resident
