import NioApps.Proofs.Handles
import NioApps.Proofs.RequestBody
import NioApps.Spec.NetworkDevice

/-! What the routines of the handler do to the session of a record, whatever part of their
requests or of the answers is lost. `Flush.data` and `Flush.commit` are the two uses of
`flush`; `Finish.settles` and `Read.reads` put them and the READs in terms of the stream. -/

namespace NioApps.Resident

open Transaction

variable {τ : Type*} {srv : Server τ} {n n' : Network τ}

/-! ### The network -/

@[simp] theorem Server.run_nil (srv : Server τ) (t : τ) : srv.run t [] = t := rfl

@[simp] theorem Server.run_append (srv : Server τ) (t : τ) (subs subs' : List Submission) :
    srv.run t (subs ++ subs') = srv.run (srv.run t subs) subs' := List.foldl_append

theorem Network.served_self {h : Byte × Byte} {r : Option Session} (hr : n.sessions h = r) : n.served srv [] h r = n := by
  subst hr
  unfold Network.served
  rw [Function.update_eq_self, Server.run_nil]

theorem Network.served_served (subs subs' : List Submission) (h : Byte × Byte) (r r' : Option Session) :
    (n.served srv subs h r).served srv subs' h r' = n.served srv (subs ++ subs') h r' := by
  simp [Network.served]

@[simp] theorem Session.write_nil (s : Session) : s.write [] = s := by simp [Session.write]

theorem Session.write_write (bs cs : List Byte) (s : Session) : (s.write bs).write cs = s.write (bs ++ cs) := by
  simp [Session.write]

/-! ### Single requests -/

/-- A WRITE is refused, or its bytes come in, or it commits the body. -/
theorem Serves.write {q a : List Byte} {s : Session} (h : Serves srv n q a n') (hq : frameCommand q = 3)
    (hs : n.sessions (frameHandle q) = some s) :
    n' = n ∧ writeAck (q, some a) = none ∨
      frameData q ≠ [] ∧ (∃ k, writeAck (q, some a) = some k ∧
        n' = n.served srv [] (frameHandle q) (some (s.write ((frameData q).take k)))) ∨
      frameData q = [] ∧
        n' = n.served srv [s.submission] (frameHandle q) (some (s.answer (srv.submit n.server s.submission).2)) := by
  cases h with
  | opened _ hq' | read hq' | closed hq' => exact absurd (hq.symm.trans hq') (by decide)
  | kept _ hwrite => exact .inl ⟨rfl, hwrite hq⟩
  | wrote _ hs' _ _ hdata hack =>
    cases hs.symm.trans hs'
    exact .inr (.inl ⟨hdata, _, hack, rfl⟩)
  | committed _ hs' _ _ hdata =>
    cases hs.symm.trans hs'
    exact .inr (.inr ⟨hdata, rfl⟩)

/-- A READ leaves the network as it is, and what it is answered with is there. -/
theorem Serves.read_data {q a : List Byte} (h : Serves srv n q a n') (hq : frameCommand q = 2) :
    n' = n ∧ ∀ last bs, readData (q, some a) = some (last, bs) → ∃ s rest, n.sessions (frameHandle q) = some s ∧
      s.content.drop (frameOffset q) = bs ++ rest ∧ (last = true ↔ rest = []) ∧ (bs = [] → rest = []) := by
  cases h with
  | opened _ hq' | wrote hq' | committed hq' | closed hq' => exact absurd (hq.symm.trans hq') (by decide)
  | kept _ _ hread =>
    refine ⟨rfl, fun last bs hdata => ?_⟩
    rw [hread hq] at hdata
    cases hdata
  | read _ hs hdata hcontent hlast hempty =>
    refine ⟨rfl, fun last bs hdata' => ?_⟩
    cases hdata.symm.trans hdata'
    exact ⟨_, _, hs, hcontent, hlast, hempty⟩

theorem Serves.info {q a : List Byte} (h : Serves srv n q a n') (hq : frameCommand q = 5) : n' = n := by
  cases h with
  | opened _ hq' | wrote hq' | committed hq' | read hq' | closed hq' => exact absurd (hq.symm.trans hq') (by decide)
  | kept => rfl

theorem Serves.close {q a : List Byte} (h : Serves srv n q a n') (hq : frameCommand q = 4) :
    n' = n ∨ n' = n.served srv [] (frameHandle q) none := by
  cases h with
  | opened _ hq' | wrote hq' | committed hq' | read hq' => exact absurd (hq.symm.trans hq') (by decide)
  | closed => exact .inr rfl
  | kept => exact .inl rfl

theorem Serves.open {q a : List Byte} (h : Serves srv n q a n') (hq : frameCommand q = 1) :
    n' = n ∧ granted a = none ∨
      ∃ h, granted a = some h ∧ n.sessions h = none ∧ n' = n.served srv [] h (some (srv.session n.server q)) := by
  cases h with
  | wrote hq' | committed hq' | read hq' | closed hq' => exact absurd (hq.symm.trans hq') (by decide)
  | opened h _ hgrant hfree => exact .inr ⟨h, hgrant, hfree, rfl⟩
  | kept hopen => exact .inl ⟨rfl, hopen hq⟩

/-! ### `flush` -/

theorem writeAck_none (f : List Byte) : writeAck (f, none) = none := rfl

/-- A WRITE of some bytes: a part of them comes in, the acknowledged one if one was. -/
theorem IsWrite.served {o : Owner} {d f : List Byte} {r : Option (List Byte)} {s : Session} (hf : IsWrite o d f)
    (hne : d ≠ []) (hs : n.sessions o.handle = some s) (h : Exchanged (Serves srv) n (f, r) n') :
    ∃ bs, n' = n.served srv [] o.handle (some (s.write bs)) ∧ ∀ k, writeAck (f, r) = some k → bs = d.take k := by
  have hkept : n = n.served srv [] o.handle (some (s.write [])) := by
    rw [Session.write_nil, Network.served_self hs]
  have hserved (a : List Byte) (h : Serves srv n f a n') :
      ∃ bs, n' = n.served srv [] o.handle (some (s.write bs)) ∧ ∀ k, writeAck (f, some a) = some k → bs = d.take k := by
    have hwrite := h.write hf.command (hf.handle ▸ hs)
    rw [hf.handle, hf.data] at hwrite
    rcases hwrite with ⟨rfl, hack⟩ | ⟨-, k, hack, rfl⟩ | ⟨hnil, -⟩
    · exact ⟨[], hkept, by simp [hack]⟩
    · exact ⟨d.take k, rfl, by simp [hack]⟩
    · exact absurd hnil hne
  cases h with
  | answered h => exact hserved _ h
  | lost a h =>
    obtain ⟨bs, hn, -⟩ := hserved a h
    exact ⟨bs, hn, by simp [writeAck_none]⟩
  | missed => exact ⟨[], hkept, by simp [writeAck_none]⟩

/-- The zero-length WRITE commits the body, or nothing happened. -/
theorem IsWrite.committed {o : Owner} {f : List Byte} {r : Option (List Byte)} {s : Session} (hf : IsWrite o [] f)
    (hs : n.sessions o.handle = some s) (h : Exchanged (Serves srv) n (f, r) n') :
    n' = n ∧ writeAck (f, r) = none ∨
      n' = n.served srv [s.submission] o.handle (some (s.answer (srv.submit n.server s.submission).2)) := by
  have hserved (a : List Byte) (h : Serves srv n f a n') : n' = n ∧ writeAck (f, some a) = none ∨
      n' = n.served srv [s.submission] o.handle (some (s.answer (srv.submit n.server s.submission).2)) := by
    have hwrite := h.write hf.command (hf.handle ▸ hs)
    rw [hf.handle, hf.data] at hwrite
    rcases hwrite with hkept | ⟨hne, -⟩ | ⟨-, hn⟩
    · exact .inl hkept
    · exact absurd rfl hne
    · exact .inr hn
  cases h with
  | answered h => exact hserved _ h
  | lost a h => exact (hserved a h).imp_left fun hkept => ⟨hkept.1, rfl⟩
  | missed => exact .inl ⟨rfl, rfl⟩

section Routines

variable {o o' : Owner} {d d' : List Byte} {xs : List Exchange} {a : Byte} {s : Session}

/-- `flush` of cached bytes: the session gets a prefix of them, all when it succeeds. -/
theorem Flush.data (h : Flush o d xs a o' d') (hne : d ≠ []) (hs : n.sessions o.handle = some s)
    (hn : Exchanges (Serves srv) n xs n') :
    ∃ bs, n' = n.served srv [] o.handle (some (s.write bs)) ∧ (a = 1 → bs = d) := by
  induction h generalizing n s with
  | blocked =>
    rw [hn.of_nil]
    exact ⟨[], by rw [Session.write_nil, Network.served_self hs], by simp⟩
  | lost hwrite hack =>
    obtain ⟨bs, hn', -⟩ := hwrite.served hne hs hn.of_single
    exact ⟨bs, hn', by simp⟩
  | full hwrite hack =>
    obtain ⟨bs, hn', hbs⟩ := hwrite.served hne hs hn.of_single
    refine ⟨bs, hn', fun _ => ?_⟩
    rw [hbs _ hack, List.take_length]
  | @part o o' d d' f r xs a k hwrite hack hpos hlt hrest ih =>
    obtain _ | ⟨hx, hxs⟩ := hn
    obtain ⟨bs, rfl, hbs⟩ := hwrite.served hne hs hx
    have hne' : d.drop k.toNat ≠ [] := by
      rw [ne_eq, List.drop_eq_nil_iff]
      omega
    have hhandle : (o.ackPart k).handle = o.handle := by simp [Owner.ackPart]
    obtain ⟨cs, hn', hcs⟩ := ih hne' (s := s.write bs) (by rw [hhandle]; simp) hxs
    refine ⟨bs ++ cs, ?_, fun ha => ?_⟩
    · rw [hn', hhandle, Network.served_served, Session.write_write]
      rfl
    · rw [hbs _ hack, hcs ha, List.take_append_drop]

/-- `flush` with nothing cached commits the body. -/
theorem Flush.commit (h : Flush o [] xs a o' d') (hs : n.sessions o.handle = some s)
    (hn : Exchanges (Serves srv) n xs n') :
    n' = n ∧ a ≠ 1 ∨
      n' = n.served srv [s.submission] o.handle (some (s.answer (srv.submit n.server s.submission).2)) := by
  cases h with
  | blocked => exact .inl ⟨hn.of_nil, by decide⟩
  | lost hwrite hack => exact (hwrite.committed hs hn.of_single).imp_left fun hkept => ⟨hkept.1, by decide⟩
  | full hwrite hack =>
    refine (hwrite.committed hs hn.of_single).imp_left fun hkept => ?_
    rw [hack] at hkept
    cases hkept.2
  | part k hwrite hack hpos hlt => exact absurd hlt (Nat.not_lt_zero _)

/-! ### The stream of a record -/

/-- The record `o` with the cached bytes `d`, its session and the stage of its stream are in accord. -/
inductive Accords (o : Owner) (d : List Byte) (s : Session) : Stage → Prop
  | writing (hmode : o.mode ≠ 4) (hfault : o.fault = 0) (hopen : o.committed = 0) (heof : o.eof = 0) :
      Accords o d s (.writing (s.received ++ d))
  | broken (hmode : o.mode ≠ 4) (hfault : o.fault ≠ 0) (hopen : o.committed = 0) : Accords o d s .broken
  | waiting (hreading : ¬o.Reading) (hfault : o.fault = 0) (hdone : o.committed ≠ 0) (heof : o.eof = 0) :
      Accords o d s (.reading s.content)
  | reading (hreading : o.Reading) (hdone : o.mode ≠ 4 → o.fault = 0 ∧ o.committed ≠ 0)
      (heof : o.eof ≠ 0 → s.content.drop o.offset = []) :
      Accords o d s (.reading (d.drop o.pos.toNat ++ s.content.drop o.offset))

/-- What a record, its cached bytes and its session say of the stream `st`. -/
structure Stands (o : Owner) (d : List Byte) (s : Session) (st : Stream) : Prop where
  mode : o.mode = st.mode
  uri : s.uri = st.uri
  method : s.method = openMethod st.mode
  short : s.content.length < 2 ^ 32
  stage : Accords o d s st.stage

/-- A session for the same request. -/
structure Session.Same (s s' : Session) : Prop where
  uri : s'.uri = s.uri
  method : s'.method = s.method
  short : s.content.length < 2 ^ 32 → s'.content.length < 2 ^ 32

theorem Session.Same.write (bs : List Byte) (s : Session) : s.Same (s.write bs) := ⟨rfl, rfl, id⟩

theorem Session.Same.answer (s : Session) {content : List Byte} (h : content.length < 2 ^ 32) : s.Same (s.answer content) :=
  ⟨rfl, rfl, fun _ => h⟩

theorem Session.Same.trans {s s₁ s₂ : Session} (h : s.Same s₁) (h' : s₁.Same s₂) : s.Same s₂ :=
  ⟨h'.uri.trans h.uri, h'.method.trans h.method, h'.short ∘ h.short⟩

theorem Stands.to {st : Stream} {s' : Session} {stage : Stage} (h : Stands o d s st) (hs : s.Same s') (hmode : o'.mode = o.mode)
    (hstage : Accords o' d' s' stage) : Stands o' d' s' (st.to stage) :=
  ⟨hmode.trans h.mode, hs.uri.trans h.uri, hs.method.trans h.method, hs.short h.short, hstage⟩

theorem Owner.not_reading (hok : OwnerOk o) (hmode : o.mode ≠ 4) (hopen : o.committed = 0) : ¬o.Reading := fun h =>
  hok.reading (h.resolve_left hmode).2 hopen

/-- An operation has settled the stream `st`, with success if `ok`; its record and network are
now `o'` and `n'`. -/
def Settled (srv : Server τ) (st : Stream) (h : Byte × Byte) (n n' : Network τ) (ok : Prop) (o' : Owner) (d' : List Byte) : Prop :=
  ∃ subs stage s', Settles srv n.server st subs stage ∧ n' = n.served srv subs h (some s') ∧ Stands o' d' s' (st.to stage) ∧
    (ok ↔ ∃ rest, stage = .reading rest)

/-- The zero-length WRITE for a stream whose body is at its session `s`; `o'` is the record
that `finish_write` leaves. -/
theorem Flush.settles {o₁ : Owner} {body : List Byte} {st : Stream} (h : Flush o₁ [] xs a o' d')
    (hn : Exchanges (Serves srv) n xs n') (hs : n.sessions o₁.handle = some s) (hst : st.stage = .writing body)
    (hsub : s.submission = st.submission body)
    (hok : a = 1 → ∀ content, content.length < 2 ^ 32 → Stands o d' (s.answer content) (st.to (.reading content)))
    (hfailed : a ≠ 1 → ∀ s', s.Same s' → Stands o d' s' (st.to .broken)) : Settled srv st o₁.handle n n' (a = 1) o d' := by
  have hshort := srv.submit_lt n.server s.submission
  rcases h.commit hs hn with ⟨rfl, ha⟩ | rfl
  · refine ⟨[], .broken, s, .lost hst, (Network.served_self hs).symm, hfailed ha s ⟨rfl, rfl, id⟩, ?_⟩
    simpa using ha
  · rw [hsub] at hshort ⊢
    by_cases ha : a = 1
    · exact ⟨[st.submission body], _, _, .sent hst, rfl, hok ha _ hshort, by simp [ha]⟩
    · exact ⟨[st.submission body], .broken, _, .unsure hst, rfl, hfailed ha _ (.answer s hshort), by simpa using ha⟩

theorem Stands.isBroken {st : Stream} (h : Stands o d s st) (hmode : o.mode ≠ 4) (hfault : o.fault ≠ 0) :
    st.stage = .broken := by
  obtain ⟨-, -, -, -, hstage⟩ := h
  generalize st.stage = stage at hstage ⊢
  cases hstage with
  | writing _ h | waiting _ h => exact absurd h hfault
  | reading _ hdone => exact absurd (hdone hmode).1 hfault
  | broken => rfl

theorem Stands.isReading {st : Stream} (h : Stands o d s st) (hfault : o.fault = 0) (hdone : o.committed ≠ 0) :
    ∃ rest, st.stage = .reading rest := by
  obtain ⟨-, -, -, -, hstage⟩ := h
  generalize st.stage = stage at hstage ⊢
  cases hstage with
  | writing _ _ hopen => exact absurd hopen hdone
  | broken _ h => exact absurd hfault h
  | waiting | reading => exact ⟨_, rfl⟩

theorem Stands.isWriting {st : Stream} (h : Stands o d s st) (hmode : o.mode ≠ 4) (hfault : o.fault = 0)
    (hopen : o.committed = 0) : st.stage = .writing (s.received ++ d) ∧ o.eof = 0 := by
  obtain ⟨-, -, -, -, hstage⟩ := h
  generalize st.stage = stage at hstage ⊢
  cases hstage with
  | writing _ _ _ heof => exact ⟨rfl, heof⟩
  | broken _ h => exact absurd hfault h
  | waiting _ _ h => exact absurd hopen h
  | reading _ h => exact absurd hopen (h hmode).2

/-- A stream that was settled before. -/
theorem Stands.settled {st : Stream} {ok : Prop} (h : Stands o d s st) (hs : n.sessions o.handle = some s)
    (hsettles : Settles srv n.server st [] st.stage) (hok : ok ↔ ∃ rest, st.stage = .reading rest) :
    Settled srv st o.handle n n ok o d :=
  ⟨[], st.stage, s, hsettles, (Network.served_self hs).symm, h, hok⟩

/-- `finish_write` settles the stream. -/
theorem Finish.settles {st : Stream} (h : Finish o d xs a o' d') (hok : OwnerOk o) (hd : d.length = o.len.toNat)
    (hmode : o.mode ≠ 4) (hstands : Stands o d s st) (hs : n.sessions o.handle = some s)
    (hn : Exchanges (Serves srv) n xs n') : Settled srv st o.handle n n' (a = 1) o' d' := by
  have hresult := h.result hd
  have hmode' : o'.mode ≠ 4 := hresult.mode ▸ hmode
  have hbroken (hopen : o.committed = 0) (ha : a ≠ 1) (s' : Session) (hsame : s.Same s') :
      Stands o' d' s' (st.to .broken) := by
    obtain ⟨-, hfault, hcommitted⟩ := hresult.failed ha
    exact hstands.to hsame hresult.mode (.broken hmode' hfault (hcommitted.trans hopen))
  have hsent (hopen : o.committed = 0) (heof : o.eof = 0) (ha : a = 1) (s' : Session) (hsame : s.Same s') :
      Stands o' d' s' (st.to (.reading s'.content)) := by
    have hreading : ¬o'.Reading := by
      rw [Owner.Reading, hresult.mode, hresult.reading]
      exact Owner.not_reading hok hmode hopen
    obtain ⟨hfault, hdone⟩ := hresult.ok ha
    exact hstands.to hsame hresult.mode (.waiting hreading hfault hdone (hresult.eof.trans heof))
  have hsubmission (bs : List Byte) : (s.write bs).submission = st.submission (s.received ++ bs) := by
    rw [Session.submission, Stream.submission, ← hstands.method, ← hstands.uri]
    rfl
  cases h with
  | fault hfault =>
    have hst := hstands.isBroken hmode hfault
    rw [hn.of_nil]
    refine hstands.settled hs ?_ (by simp [hst])
    rw [hst]
    exact .broken hst
  | done hfault hdone =>
    obtain ⟨rest, hst⟩ := hstands.isReading hfault hdone
    rw [hn.of_nil]
    refine hstands.settled hs ?_ (by simp [hst])
    rw [hst]
    exact .read hst
  | commit hfault hopen hcommit =>
    obtain ⟨hst, heof⟩ := hstands.isWriting hmode hfault hopen
    have hsub := hsubmission []
    rw [Session.write_nil] at hsub
    exact hcommit.settles hn hs hst hsub (fun ha content hlt => hsent hopen heof ha _ (.answer s hlt)) (hbroken hopen)
  | failed hfault hopen hne hflush ha =>
    obtain ⟨hst, -⟩ := hstands.isWriting hmode hfault hopen
    obtain ⟨bs, rfl, -⟩ := hflush.data hne hs hn
    exact ⟨[], .broken, s.write bs, .lost hst, rfl, hbroken hopen ha _ (.write bs s), by simpa using ha⟩
  | last hfault hopen hne hflush hcommit =>
    obtain ⟨hst, heof⟩ := hstands.isWriting hmode hfault hopen
    obtain ⟨n₁, hxs, hys⟩ := hn.split
    obtain ⟨bs, rfl, hbs⟩ := hflush.data hne hs hxs
    cases hbs rfl
    -- the server has not heard of the body yet
    have hsettled := hcommit.settles (s := s.write d) hys (by rw [hflush.handle]; simp) hst (hsubmission d)
      (fun ha content hlt => hsent hopen heof ha _ ((Session.Same.write d s).trans (.answer _ hlt)))
      fun ha s' hsame => hbroken hopen ha s' ((Session.Same.write d s).trans hsame)
    obtain ⟨subs, stage, s', hsettles, hn', hrest⟩ := hsettled
    rw [hflush.handle, Network.served_served] at hn'
    exact ⟨subs, stage, s', hsettles, hn', hrest⟩

/-! ### READ -/

/-- A READ changes nothing, and its data is the content from the offset of the record on. -/
theorem IsRead.served {f : List Byte} {r : Option (List Byte)} (hf : IsRead o f) (hs : n.sessions o.handle = some s)
    (h : Exchanged (Serves srv) n (f, r) n') :
    n' = n ∧ ∀ last bs, readData (f, r) = some (last, bs) → ∃ rest, s.content.drop o.offset = bs ++ rest ∧
      (last = true ↔ rest = []) ∧ (bs = [] → rest = []) := by
  cases h with
  | answered h =>
    obtain ⟨hn, hdata⟩ := h.read_data hf.command
    refine ⟨hn, fun last bs hbs => ?_⟩
    obtain ⟨s', rest, hs', hcontent, hlast, hempty⟩ := hdata last bs hbs
    rw [hf.handle] at hs'
    rw [hf.offset] at hcontent
    cases hs.symm.trans hs'
    exact ⟨rest, hcontent, hlast, hempty⟩
  | lost a h => exact ⟨(h.read_data hf.command).1, by simp [readData]⟩
  | missed => exact ⟨rfl, by simp [readData]⟩

theorem Owner.offset_lt (o : Owner) : o.offset < 2 ^ 32 :=
  (le_lt [o.offset0, o.offset1, o.offset2, o.offset3]).trans_le (by norm_num)

/-- What GET does to a stream that is read. -/
inductive Reads (s : Session) (st : Stream) (o' : Owner) (d' : List Byte) : Byte → Option Byte → Prop
  | next {b : Byte} {rest : List Byte} (h : st.stage = .reading (b :: rest)) (hstands : Stands o' d' s (st.to (.reading rest))) :
      Reads s st o' d' 1 (some b)
  | ended (h : st.stage = .reading []) (hstands : Stands o' d' s (st.to (.reading []))) : Reads s st o' d' 0x88 none
  | failed {rest : List Byte} (h : st.stage = .reading rest) (hstands : Stands o' d' s (st.to (.reading rest))) :
      Reads s st o' d' 0x90 none

theorem Stands.atOffset {st : Stream} (h : Stands o d s st) (hok : OwnerOk o) (hreading : o.Reading) :
    st.stage = .reading (d.drop o.pos.toNat ++ s.content.drop o.offset) ∧ (o.mode ≠ 4 → o.fault = 0 ∧ o.committed ≠ 0) ∧
      (o.eof ≠ 0 → s.content.drop o.offset = []) := by
  obtain ⟨-, -, -, -, hstage⟩ := h
  generalize st.stage = stage at hstage ⊢
  cases hstage with
  | writing hmode _ hopen | broken hmode _ hopen => exact absurd hreading (Owner.not_reading hok hmode hopen)
  | waiting h => exact absurd hreading h
  | reading _ hdone heof => exact ⟨rfl, hdone, heof⟩

/-- The flags and the mode of a record that goes on reading. -/
theorem Stands.read_on {st : Stream} {rest : List Byte} (h : Stands o d s st) (hok : OwnerOk o) (hreading : o.Reading)
    (hmode : o'.mode = o.mode) (hfault : o'.fault = o.fault) (hcommitted : o'.committed = o.committed)
    (hreading' : o'.reading = o.reading) (heof : o'.eof ≠ 0 → s.content.drop o'.offset = [])
    (hrest : rest = d'.drop o'.pos.toNat ++ s.content.drop o'.offset) : Stands o' d' s (st.to (.reading rest)) := by
  have hnow : o'.Reading := by
    unfold Owner.Reading
    rw [hmode, hreading']
    exact hreading
  have hdone : o'.mode ≠ 4 → o'.fault = 0 ∧ o'.committed ≠ 0 := by
    rw [hmode, hfault, hcommitted]
    exact (h.atOffset hok hreading).2.1
  rw [hrest]
  exact h.to ⟨rfl, rfl, id⟩ hmode (.reading hnow hdone heof)

/-- GET from `@read` on. -/
theorem Read.reads {y : Byte} {got : Option Byte} {st : Stream} (h : Read o d xs y got o' d') (hok : OwnerOk o)
    (hd : d.length = o.len.toNat) (hreading : o.Reading) (hstands : Stands o d s st) (hs : n.sessions o.handle = some s)
    (hn : Exchanges (Serves srv) n xs n') : n' = n ∧ Reads s st o' d' y got := by
  obtain ⟨hst, hdone, heof⟩ := hstands.atOffset hok hreading
  have hfailed : Stands o d s (st.to (.reading (d.drop o.pos.toNat ++ s.content.drop o.offset))) := by
    rw [← hst]
    exact hstands
  have hstop (hpos : ¬o.pos < o.len) : d.drop o.pos.toNat = [] := by
    rw [List.drop_eq_nil_iff, hd]
    exact BitVec.not_lt.1 hpos
  cases h with
  | cached hpos =>
    have hlt : o.pos.toNat < d.length := hd ▸ hpos
    have hnext : o.taken.pos.toNat = o.pos.toNat + 1 := by
      have := o.len.isLt
      simp only [Owner.taken]
      bv_omega
    have hbyte : d.drop o.pos.toNat = d.getD o.pos.toNat 0 :: d.drop (o.pos.toNat + 1) := by
      rw [List.drop_eq_getElem_cons hlt, List.getD_eq_getElem _ 0 hlt]
    rw [hbyte, List.cons_append] at hst
    refine ⟨hn.of_nil, .next hst (hstands.read_on hok hreading rfl rfl rfl rfl heof ?_)⟩
    rw [hnext]
    rfl
  | atEof hpos hend =>
    rw [hstop hpos, heof hend] at hst hfailed
    exact ⟨hn.of_nil, .ended hst hfailed⟩
  | blocked => exact ⟨hn.of_nil, .failed hst hfailed⟩
  | rejected hpos hopen hread hdata =>
    obtain ⟨hn', -⟩ := hread.served hs hn.of_single
    exact ⟨hn', .failed hst hfailed⟩
  | @empty f r e hpos hopen hread hdata =>
    obtain ⟨hn', hcontent⟩ := hread.served hs hn.of_single
    obtain ⟨rest, hdrop, -, hempty⟩ := hcontent _ _ hdata
    rw [hempty rfl] at hdrop
    have hoffset : (o.publish e 0).offset = o.offset := (publish_offset e 0 o).trans (Nat.mod_eq_of_lt o.offset_lt)
    rw [hstop hpos, hdrop] at hst
    refine ⟨hn', .ended hst (hstands.read_on hok hreading (by simp) (by simp) (by simp) (by simp) ?_ ?_)⟩
    · rw [hoffset, hdrop]
      exact fun _ => rfl
    · rw [hoffset, hdrop]
      rfl
  | @refilled f r e k b bs hpos hopen hread hdata hk hle =>
    obtain ⟨hn', hcontent⟩ := hread.served hs hn.of_single
    obtain ⟨rest, hdrop, hlast, -⟩ := hcontent _ _ hdata
    -- the offset stays within the content
    have hlen := congrArg List.length hdrop
    rw [List.length_drop, List.length_append, List.length_cons, ← hk] at hlen
    have hshort := hstands.short
    have hoffset : (o.publish e k).taken.offset = o.offset + k.toNat :=
      (publish_offset e k o).trans (Nat.mod_eq_of_lt (by omega))
    have hrest : s.content.drop (o.offset + k.toNat) = rest := by
      rw [← List.drop_drop, hdrop, hk, ← List.length_cons (a := b), List.drop_left]
    rw [hstop hpos, hdrop] at hst
    refine ⟨hn', .next hst (hstands.read_on hok hreading (by simp [Owner.taken]) (by simp [Owner.taken])
      (by simp [Owner.taken]) (by simp [Owner.taken]) (fun hend => ?_) ?_)⟩
    · rw [hoffset, hrest]
      exact hlast.1 ((publish_final e k o).1 hend)
    · rw [hoffset, hrest]
      rfl

end Routines

end NioApps.Resident
