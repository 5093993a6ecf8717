import NioApps.Proofs.NetworkSessions

/-! What each CIO call does to the stream of its IOCB, when the requests it sends are served
by the network or lost. -/

namespace NioApps.Resident

open Transaction

variable {τ : Type*} {srv : Server τ} {n n' : Network τ}

/-- The call `e` on the stream `st` has taken the network from `n` to `n'`, and its record is
now `o'`. -/
def Carried (srv : Server τ) (st : Stream) (h : Byte × Byte) (n n' : Network τ) (e : Done) (o' : Owner) (d' : List Byte) : Prop :=
  ∃ subs st' r, Does srv n.server st e subs st' ∧ n' = n.served srv subs h r ∧
    ∀ st₁, st' = some st₁ → ∃ s', r = some s' ∧ Stands o' d' s' st₁

section Operations

variable {o o' : Owner} {d d' : List Byte} {xs : List Exchange} {a y : Byte} {s : Session} {st : Stream} {e : Done}

/-- A call that leaves the stream and the network alone. -/
theorem Stands.carried (h : Stands o d s st) (hs : n.sessions o.handle = some s) (hdoes : Does srv n.server st e [] (some st)) :
    Carried srv st o.handle n n e o d := by
  refine ⟨[], some st, some s, hdoes, (Network.served_self hs).symm, fun st₁ hst => ?_⟩
  cases hst
  exact ⟨s, rfl, h⟩

theorem Stands.not_writing (h : Stands o d s st) (hshut : o.mode ≠ 4 → ¬(o.fault = 0 ∧ o.committed = 0)) (body : List Byte) :
    st.stage ≠ .writing body := by
  intro hst
  obtain ⟨-, -, -, -, hstage⟩ := h
  rw [hst] at hstage
  cases hstage with
  | writing hmode hfault hopen => exact hshut hmode ⟨hfault, hopen⟩

/-- PUT. -/
theorem Put.carried {bs : List Byte} (h : Put e.call.a o d xs bs e.y o' d') (hop : e.call.op = .put)
    (hd : d.length = o.len.toNat) (hstands : Stands o d s st) (hs : n.sessions o.handle = some s)
    (hn : Exchanges (Serves srv) n xs n') : Carried srv st o.handle n n' e o' d' := by
  generalize hy : e.y = y at h
  cases h with
  | unsupported hmode =>
    rw [hn.of_nil]
    exact hstands.carried hs (.putRefused hop (hstands.not_writing fun h => absurd hmode h) (by rw [hy]; decide))
  | refused hmode hshut =>
    rw [hn.of_nil]
    exact hstands.carried hs (.putRefused hop (hstands.not_writing fun _ => hshut) (by rw [hy]; decide))
  | stored hmode hfault hopen hlen =>
    obtain ⟨hst, heof⟩ := hstands.isWriting hmode hfault hopen
    rw [hn.of_nil]
    refine ⟨[], _, some s, .put hop hst hy, (Network.served_self hs).symm, fun st₁ hst₁ => ?_⟩
    cases hst₁
    refine ⟨s, rfl, hstands.to ⟨rfl, rfl, id⟩ rfl ?_⟩
    rw [List.append_assoc]
    exact .writing hmode hfault hopen heof
  | flushed hmode hfault hopen hlen hflush =>
    obtain ⟨hst, heof⟩ := hstands.isWriting hmode hfault hopen
    have hresult := hflush.result (by rw [List.length_append, hd, stored_len (by omega)]; rfl)
    have hmode' : o'.mode ≠ 4 := by
      rw [hresult.mode]
      exact hmode
    obtain ⟨bs, rfl, hbs⟩ := hflush.data (by simp) hs hn
    by_cases ha : y = 1
    · obtain ⟨hfault', rfl⟩ := hresult.ok ha
      refine ⟨[], _, _, .put hop hst (hy.trans ha), rfl, fun st₁ hst₁ => ?_⟩
      cases hst₁
      refine ⟨_, rfl, hstands.to (.write bs s) hresult.mode ?_⟩
      have hbody : s.received ++ d ++ [e.call.a] = (s.write bs).received ++ [] := by
        rw [hbs ha, List.append_nil, List.append_assoc]
        rfl
      rw [hbody]
      exact .writing hmode' (hfault'.trans hfault) (hresult.committed.trans hopen) (hresult.eof.trans heof)
    · obtain ⟨h90, hfault'⟩ := hresult.failed ha
      refine ⟨[], _, _, .putFailed hop hst (hy.trans h90), rfl, fun st₁ hst₁ => ?_⟩
      cases hst₁
      refine ⟨_, rfl, hstands.to (.write bs s) hresult.mode (.broken hmode' ?_ (hresult.committed.trans hopen))⟩
      rw [hfault']
      decide

/-- GET of a stream that is read, after what it submitted. -/
theorem Reads.carried {got : Option Byte} {subs : List Submission} {n₁ : Network τ} {rest : List Byte} {s' : Session}
    (h : Reads s' (st.to (.reading rest)) o' d' e.y got) (hop : e.call.op = .get) (hmode : st.mode ≠ 8)
    (ha : ∀ b, got = some b → e.a = b) (hsettles : Settles srv n.server st subs (.reading rest))
    (hn₁ : n₁ = n.served srv subs o.handle (some s')) : Carried srv st o.handle n n₁ e o' d' := by
  generalize hy : e.y = y at h
  cases h with
  | next h hstands =>
    cases h
    cases ha _ rfl
    refine ⟨subs, _, _, .got hop hmode hsettles hy, hn₁, fun st₁ hst₁ => ?_⟩
    cases hst₁
    exact ⟨s', rfl, hstands⟩
  | ended h hstands =>
    cases h
    refine ⟨subs, _, _, .ended hop hmode hsettles hy, hn₁, fun st₁ hst₁ => ?_⟩
    cases hst₁
    exact ⟨s', rfl, hstands⟩
  | failed h hstands =>
    cases h
    refine ⟨subs, _, _, .getFailed hop hmode hsettles hy, hn₁, fun st₁ hst₁ => ?_⟩
    cases hst₁
    exact ⟨s', rfl, hstands⟩

/-- The switch of an update owner to reading. -/
theorem Stands.startReading {rest : List Byte} (h : Stands o d s (st.to (.reading rest))) (hmode : o.mode = 12)
    (hfirst : o.reading = 0) : Stands o.startReading [] s (st.to (.reading rest)) := by
  have h4 : o.mode ≠ 4 := by
    rw [hmode]
    decide
  have hnot : ¬o.Reading := fun hreading => (hreading.resolve_left h4).2 hfirst
  obtain ⟨hm, huri, hmethod, hshort, hstage⟩ := h
  have hstage' : Accords o d s (.reading rest) := hstage
  cases hstage' with
  | reading hreading => exact absurd hreading hnot
  | waiting _ hfault hdone heof =>
    exact ⟨hm, huri, hmethod, hshort, .reading (Owner.startReading_reading hmode hfirst) (fun _ => ⟨hfault, hdone⟩)
      fun hne => absurd rfl hne⟩

theorem Get.carried {got : Option Byte} (h : Get o d xs e.y got o' d') (hop : e.call.op = .get)
    (ha : ∀ b, got = some b → e.a = b) (hok : OwnerOk o) (hd : d.length = o.len.toNat) (hstands : Stands o d s st)
    (hs : n.sessions o.handle = some s) (hn : Exchanges (Serves srv) n xs n') : Carried srv st o.handle n n' e o' d' := by
  have hmode (h : o.mode = 4 ∨ o.mode = 12) : st.mode ≠ 8 := by
    rw [← hstands.mode]
    rcases h with h | h <;> rw [h] <;> decide
  generalize hy : e.y = y at h
  cases h with
  | unsupported h4 h12 =>
    have h8 : st.mode = 8 := by
      rw [← hstands.mode]
      exact (hok.mode.resolve_left h4).resolve_right h12
    rw [hn.of_nil]
    exact hstands.carried hs (.getRefused hop h8 hy)
  | read hreading hread =>
    obtain ⟨hn', hreads⟩ := hread.reads hok hd hreading hstands hs hn
    obtain ⟨hst, -⟩ := hstands.atOffset hok hreading
    have hself : st.to (.reading (d.drop o.pos.toNat ++ s.content.drop o.offset)) = st := by
      rw [← hst]
      rfl
    rw [← hself, ← hy] at hreads
    exact hreads.carried hop (hmode (hreading.imp_right And.left)) ha (.read hst)
      (hn'.trans (Network.served_self hs).symm)
  | refused h12 hfirst hfinish hne =>
    have h4 : o.mode ≠ 4 := by
      rw [h12]
      decide
    obtain ⟨subs, stage, s', hsettles, hn', hstands', -⟩ := hfinish.settles hok hd h4 hstands hs hn
    refine ⟨subs, _, _, .getFailed hop (hmode (.inr h12)) hsettles hy, hn', fun st₁ hst₁ => ?_⟩
    cases hst₁
    exact ⟨s', rfl, hstands'⟩
  | @started _ _ _ _ o₁ _ _ _ h12 hfirst hfinish hread =>
    have h4 : o.mode ≠ 4 := by
      rw [h12]
      decide
    obtain ⟨n₁, hxs, hys⟩ := hn.split
    obtain ⟨subs, stage, s', hsettles, hn₁, hstands', hdone⟩ := hfinish.settles hok hd h4 hstands hs hxs
    obtain ⟨rest, rfl⟩ := hdone.1 rfl
    have hresult := hfinish.result hd
    obtain ⟨hok₁, -, hcommitted⟩ := hfinish.ok hd hok
    have hmode₁ := hresult.mode.trans h12
    have hfirst₁ := hresult.reading.trans hfirst
    have hstart := hstands'.startReading hmode₁ hfirst₁
    have hok₂ : OwnerOk o₁.startReading :=
      ⟨hok₁.mode, le_rfl, Nat.zero_le _, fun _ _ _ => Nat.zero_le _, fun _ => hcommitted rfl⟩
    have hs₁ : n₁.sessions o₁.startReading.handle = some s' := by
      rw [hn₁]
      exact (congrArg _ hfinish.handle).trans (Function.update_self ..)
    obtain ⟨hn', hreads⟩ := hread.reads hok₂ rfl (Owner.startReading_reading hmode₁ hfirst₁) hstart hs₁ hys
    rw [← hy] at hreads
    exact hreads.carried hop (hmode (.inr h12)) ha hsettles (hn'.trans hn₁)

/-! ### STATUS and CLOSE -/

theorem Settle.settles (h : Settle o d xs a o' d') (hok : OwnerOk o) (hd : d.length = o.len.toNat) (hstands : Stands o d s st)
    (hs : n.sessions o.handle = some s) (hn : Exchanges (Serves srv) n xs n') :
    Settled srv st o.handle n n' (a = 1) o' d' := by
  cases h with
  | read hmode =>
    obtain ⟨hst, -⟩ := hstands.atOffset hok (.inl hmode)
    rw [hn.of_nil]
    refine hstands.settled hs ?_ (by simp [hst])
    rw [hst]
    exact .read hst
  | write hmode hfinish => exact hfinish.settles hok hd hmode hstands hs hn

theorem info_served (hn : Exchanges (Serves srv) n xs n') (hxs : ∀ x ∈ xs, frameCommand x.1 = 5) : n' = n := by
  refine Exchanges.keeps (P := fun m => m = n) hn (fun x hx m m' hm h => ?_) rfl
  cases h with
  | answered h | lost _ h => exact (h.info (hxs _ hx)).trans hm
  | missed => exact hm

/-- Whatever becomes of a CLOSE, it is about its own session. -/
theorem close_served {h : Byte × Byte} (hn : Exchanges (Serves srv) n xs n')
    (hxs : ∀ x ∈ xs, frameCommand x.1 = 4 ∧ frameHandle x.1 = h) : ∃ r, n' = n.served srv [] h r := by
  refine Exchanges.keeps (P := fun m => ∃ r, m = n.served srv [] h r) hn (fun x hx m m' hm hex => ?_)
    ⟨_, (Network.served_self rfl).symm⟩
  obtain ⟨r, rfl⟩ := hm
  obtain ⟨hcommand, hhandle⟩ := hxs x hx
  have hserved {q b : List Byte} (hq : frameCommand q = 4) (hqh : frameHandle q = h)
      (hs : Serves srv (n.served srv [] h r) q b m') : ∃ r, m' = n.served srv [] h r := by
    rcases hs.close hq with rfl | rfl
    · exact ⟨r, rfl⟩
    · rw [hqh, Network.served_served]
      exact ⟨none, rfl⟩
  cases hex with
  | answered hs | lost _ hs => exact hserved hcommand hhandle hs
  | missed => exact ⟨r, rfl⟩

/-- STATUS reports the end of a stream only when all of it was read. -/
theorem Stands.info_end {rest : List Byte} (h : Stands o d s (st.to (.reading rest)))
    (hd : d.length = o.len.toNat) (hinfo : o.info = 0x88) : rest = [] := by
  obtain ⟨-, -, -, -, hstage⟩ := h
  have hstage' : Accords o d s (.reading rest) := hstage
  have hflags : o.eof ≠ 0 ∧ ¬o.pos < o.len := by
    unfold Owner.info at hinfo
    split_ifs at hinfo with h8 heof hpos
    · exact absurd hinfo (by decide)
    · exact absurd hinfo (by decide)
    · exact absurd hinfo (by decide)
    · exact ⟨heof, hpos⟩
  cases hstage' with
  | waiting _ _ _ heof => exact absurd heof hflags.1
  | reading _ _ heof =>
    rw [heof hflags.1, List.append_nil, List.drop_eq_nil_iff, hd]
    exact BitVec.not_lt.1 hflags.2

theorem Status.carried (h : Status o d xs e.y o' d') (hop : e.call.op = .status) (hok : OwnerOk o)
    (hd : d.length = o.len.toNat) (hstands : Stands o d s st) (hs : n.sessions o.handle = some s)
    (hn : Exchanges (Serves srv) n xs n') : Carried srv st o.handle n n' e o' d' := by
  generalize hy : e.y = y at h
  cases h with
  | refused hsettle hne =>
    obtain ⟨subs, stage, s', hsettles, hn', hstands', hdone⟩ := hsettle.settles hok hd hstands hs hn
    have h88 : y ≠ 0x88 := by
      cases hsettle with
      | read => exact absurd rfl hne
      | write _ hfinish =>
        rw [((hfinish.result hd).failed hne).1]
        decide
    refine ⟨subs, _, _, .status hop hsettles (fun h1 => hdone.1 (hy.symm.trans h1)) (fun hend => absurd (hy.symm.trans hend) h88), hn',
      fun st₁ hst₁ => ?_⟩
    cases hst₁
    exact ⟨s', rfl, hstands'⟩
  | info hsettle hcommand hinfo =>
    obtain ⟨n₁, hxs, hys⟩ := hn.split
    obtain ⟨subs, stage, s', hsettles, hn₁, hstands', hdone⟩ := hsettle.settles hok hd hstands hs hxs
    obtain ⟨rest, rfl⟩ := hdone.1 rfl
    have hd' : d'.length = o'.len.toNat := by
      cases hsettle with
      | read => exact hd
      | write _ hfinish => exact (hfinish.result hd).cached
    have hend (h88 : e.y = 0x88) : Stage.reading rest = .reading [] := by
      rcases hinfo with h90 | hinfo
      · rw [hy, h90] at h88
        exact absurd h88 (by decide)
      · rw [hstands'.info_end hd' (hinfo.symm.trans (hy.symm.trans h88))]
    refine ⟨subs, _, _, .status hop hsettles (fun _ => ⟨rest, rfl⟩) hend, (info_served hys hcommand).trans hn₁, fun st₁ hst₁ => ?_⟩
    cases hst₁
    exact ⟨s', rfl, hstands'⟩

theorem Close.carried (h : Close o d xs e.y o' d') (hop : e.call.op = .close) (hok : OwnerOk o) (hd : d.length = o.len.toNat)
    (hhandle : ∀ x ∈ xs, frameCommand x.1 = 4 → frameHandle x.1 = o.handle) (hstands : Stands o d s st)
    (hs : n.sessions o.handle = some s) (hn : Exchanges (Serves srv) n xs n') : Carried srv st o.handle n n' e o' d' := by
  generalize hy : e.y = y at h
  obtain ⟨hsettle, hcommand, hresult⟩ := h
  obtain ⟨n₁, hxs, hys⟩ := hn.split
  obtain ⟨subs, stage, s', hsettles, rfl, -, hdone⟩ := hsettle.settles hok hd hstands hs hxs
  obtain ⟨r, rfl⟩ := close_served hys fun x hx => ⟨hcommand x hx, hhandle x (List.mem_append_right _ hx) (hcommand x hx)⟩
  refine ⟨subs, none, r, .close hop hsettles fun h1 => hdone.1 ?_, ?_, by simp⟩
  · rcases hresult with h90 | ha
    · exact absurd (h1.symm.trans (hy.trans h90)) (by decide)
    · exact ha.symm.trans (hy.symm.trans h1)
  · rw [Network.served_served, List.append_nil]

/-- A call on the record its caller owns. -/
theorem OwnerCall.carried {bs : List Byte} (h : OwnerCall e.call o d xs bs e.y e.a o' d') (hok : OwnerOk o)
    (hd : d.length = o.len.toNat) (hhandle : e.call.op = .close → ∀ x ∈ xs, frameCommand x.1 = 4 → frameHandle x.1 = o.handle)
    (hstands : Stands o d s st) (hs : n.sessions o.handle = some s) (hn : Exchanges (Serves srv) n xs n') :
    Carried srv st o.handle n n' e o' d' := by
  generalize hy : e.y = y at h
  generalize ha : e.a = a at h
  cases h with
  | twice hop =>
    rw [hn.of_nil]
    exact hstands.carried hs (.twice hop hy)
  | put hop h => exact (hy ▸ h).carried hop hd hstands hs hn
  | get hop h hbyte => exact (hy ▸ h).carried hop (ha ▸ hbyte) hok hd hstands hs hn
  | status hop h => exact (hy ▸ h).carried hop hok hd hstands hs hn
  | close hop h => exact (hy ▸ h).carried hop hok hd (hhandle hop) hstands hs hn

end Operations

end NioApps.Resident
