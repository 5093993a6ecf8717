import NioApps.Proofs.ChannelCalls
import NioApps.Sanity.Ordered

/-! The handler, the transport that loses requests and answers, and the NetworkDevice behind
it make one device with a stream for each open IOCB (`channels_refined`). The invariant is
`Mirrors`; a call keeps it and is a step of the device. -/

namespace NioApps.Resident

open Transaction

variable {τ : Type*} {srv : Server τ} {n n' : Network τ}

/-- Between two calls, each live record stands for the stream of its IOCB and has a session
of its own. -/
structure Mirrors (w : Ram) (n : Network τ) (s : Channels τ) : Prop where
  table : TableOk w
  server : s.server = n.server
  handles : ∀ j k, (w.owners j).own ≠ 0xff → (w.owners k).own ≠ 0xff → (w.owners j).handle = (w.owners k).handle → j = k
  stream : ∀ k, (w.owners k).own ≠ 0xff → ∃ st r, s.streams (w.owners k).own = some st ∧
    n.sessions (w.owners k).handle = some r ∧ Stands (w.owners k) (cached k w) r st
  opened : ∀ x st, s.streams x = some st → ∃ k, (w.owners k).own = x ∧ x ≠ 0xff

theorem Mirrors.start (t : τ) : Mirrors init (Network.start t) (Channels.start t) where
  table := init_tableOk
  server := rfl
  handles _ _ h := absurd rfl h
  stream _ h := absurd rfl h
  opened _ _ h := by cases h

section Steps

variable {w w' : Ram} {s : Channels τ}

theorem Mirrors.same (h : Mirrors w n s) (hsame : Unchanged w w') (hbusy : w'.busy = 0) : Mirrors w' n s := by
  have hcached := cached_of_same hsame.1 hsame.2
  refine ⟨h.table.same hsame.1 hbusy, h.server, ?_, fun k hk => ?_, ?_⟩
  · rw [hsame.1]
    exact h.handles
  · rw [hsame.1] at hk ⊢
    rw [hcached]
    exact h.stream k hk
  · rw [hsame.1]
    exact h.opened

/-- A session that no record has. -/
theorem Mirrors.session (h : Mirrors w n s) {handle : Byte × Byte} (hfree : n.sessions handle = none) (r : Option Session) :
    Mirrors w (n.served srv [] handle r) s := by
  refine ⟨h.table, h.server, h.handles, fun k hk => ?_, h.opened⟩
  obtain ⟨st, r', hst, hr', hstands⟩ := h.stream k hk
  have hne : (w.owners k).handle ≠ handle := by
    intro heq
    rw [heq, hfree] at hr'
    cases hr'
  exact ⟨st, r', hst, by rw [Network.served_sessions, Function.update_of_ne hne, hr'], hstands⟩

theorem Mirrors.unopened (h : Mirrors w n s) {x : Byte} (hfree : ∀ k, (w.owners k).own ≠ x) : s.streams x = none := by
  cases hst : s.streams x with
  | none => rfl
  | some st =>
    obtain ⟨k, hk, -⟩ := h.opened x st hst
    exact absurd hk (hfree k)

/-- The record in slot `k` was opened, changed or released by IOCB `x`. -/
theorem Mirrors.update (h : Mirrors w n s) (htable : TableOk w') {k : Slot} {x : Byte} {handle : Byte × Byte}
    {subs : List Submission} {st' : Option Stream} {r : Option Session} (hother : ∀ j ≠ k, w'.owners j = w.owners j)
    (hcached : ∀ j ≠ k, (w.owners j).own ≠ 0xff → cached j w' = cached j w)
    (hx : ∀ j ≠ k, (w.owners j).own ≠ x) (hk : (w.owners k).own = x ∨ (w.owners k).own = 0xff)
    (hhandle : ∀ j ≠ k, (w.owners j).own ≠ 0xff → (w.owners j).handle ≠ handle)
    (hlive : (w'.owners k).own ≠ 0xff → (w'.owners k).own = x ∧ (w'.owners k).handle = handle ∧
      ∃ st r', st' = some st ∧ r = some r' ∧ Stands (w'.owners k) (cached k w') r' st)
    (hgone : ∀ st, st' = some st → (w'.owners k).own = x ∧ x ≠ 0xff) :
    Mirrors w' (n.served srv subs handle r) (s.served srv subs x st') where
  table := htable
  server := congrArg (srv.run · subs) h.server
  handles i j hi hj heq := by
    by_cases hik : i = k <;> by_cases hjk : j = k
    · rw [hik, hjk]
    · rw [hik, (hlive (hik ▸ hi)).2.1, hother j hjk] at heq
      rw [hother j hjk] at hj
      exact absurd heq.symm (hhandle j hjk hj)
    · rw [hjk, (hlive (hjk ▸ hj)).2.1, hother i hik] at heq
      rw [hother i hik] at hi
      exact absurd heq (hhandle i hik hi)
    · rw [hother i hik, hother j hjk] at heq
      rw [hother i hik] at hi
      rw [hother j hjk] at hj
      exact h.handles i j hi hj heq
  stream j hj := by
    by_cases hjk : j = k
    · subst hjk
      obtain ⟨hown, hh, st, r', rfl, rfl, hstands⟩ := hlive hj
      rw [hown, hh, Channels.served_streams, Function.update_self, Network.served_sessions, Function.update_self]
      exact ⟨st, r', rfl, rfl, hstands⟩
    · rw [hother j hjk] at hj ⊢
      rw [Channels.served_streams, Function.update_of_ne (hx j hjk), Network.served_sessions,
        Function.update_of_ne (hhandle j hjk hj), hcached j hjk hj]
      exact h.stream j hj
  opened y st hst := by
    rw [Channels.served_streams] at hst
    by_cases hy : y = x
    · subst hy
      rw [Function.update_self] at hst
      exact ⟨k, hgone st hst⟩
    · rw [Function.update_of_ne hy] at hst
      obtain ⟨j, hj, hff⟩ := h.opened y st hst
      have hjk : j ≠ k := by
        rintro rfl
        rcases hk with hk | hk
        · exact hy (hj.symm.trans hk)
        · exact hff (hj.symm.trans hk)
      exact ⟨j, by rw [hother j hjk, hj], hff⟩

end Steps

/-! ### OPEN -/

theorem frameCommand_openFrame (mode : Byte) (uri : List Byte) : frameCommand (openFrame mode uri) = 1 := rfl

theorem frameMethod_openFrame (mode : Byte) (uri : List Byte) : frameMethod (openFrame mode uri) = openMethod mode := rfl

theorem frameUri_openFrame (mode : Byte) {uri : List Byte} (h : uri.length ≤ 128) : frameUri (openFrame mode uri) = uri := by
  have hdrop : (openFrame mode uri).drop 11 = uri ++ List.replicate 8 0 := rfl
  have hlen : ((openFrame mode uri).getD 9 0).toNat = uri.length := by
    change (BitVec.ofNat 8 uri.length).toNat = uri.length
    rw [BitVec.toNat_ofNat, Nat.mod_eq_of_lt (by omega)]
  rw [frameUri, hdrop, hlen, List.take_left]

/-- The session of the stream that OPEN leaves. -/
theorem opened_stands (srv : Server τ) (t : τ) {own mode : Byte} {handle : Byte × Byte} {uri : List Byte}
    (h : uri.length ≤ 128) :
    Stands (openedOwner own mode handle) [] (srv.session t (openFrame mode uri)) (srv.stream t mode uri) := by
  have hcontent : (srv.session t (openFrame mode uri)).content = if mode = 4 then srv.get t uri else [] := by
    unfold Server.session
    rw [frameMethod_openFrame, frameUri_openFrame mode h, openMethod]
    split_ifs <;> simp_all
  refine ⟨rfl, frameUri_openFrame mode h, frameMethod_openFrame mode uri, ?_, ?_⟩
  · rw [hcontent]
    split_ifs
    · exact srv.get_lt t uri
    · exact Nat.two_pow_pos 32
  · unfold Server.stream
    dsimp only
    split_ifs with h4
    · have hrest : srv.get t uri = List.drop (openedOwner own mode handle).pos.toNat [] ++
          (srv.session t (openFrame mode uri)).content.drop (openedOwner own mode handle).offset := by
        rw [hcontent, if_pos h4]
        rfl
      rw [hrest]
      exact .reading (.inl h4) (fun hne => absurd h4 hne) fun hne => absurd rfl hne
    · exact .writing h4 rfl rfl rfl

/-- An OPEN may leave a session behind, and does when its answer grants one. -/
theorem open_served {q : List Byte} {reply : Option (List Byte)} (h : Exchanged (Serves srv) n (q, reply) n')
    (hq : frameCommand q = 1) :
    (n' = n ∨ ∃ handle r, n.sessions handle = none ∧ n' = n.served srv [] handle r) ∧
      ∀ handle, reply.bind granted = some handle →
        n.sessions handle = none ∧ n' = n.served srv [] handle (some (srv.session n.server q)) := by
  cases h with
  | answered h =>
    rcases h.open hq with ⟨rfl, hgrant⟩ | ⟨handle, hgrant, hfree, rfl⟩
    · exact ⟨.inl rfl, fun handle hg => by simp [hgrant] at hg⟩
    · refine ⟨.inr ⟨handle, _, hfree, rfl⟩, fun handle' hg => ?_⟩
      cases hgrant.symm.trans hg
      exact ⟨hfree, rfl⟩
  | lost a h =>
    refine ⟨?_, by simp⟩
    rcases h.open hq with ⟨rfl, -⟩ | ⟨handle, -, hfree, rfl⟩
    · exact .inl rfl
    · exact .inr ⟨handle, _, hfree, rfl⟩
  | missed => exact ⟨.inl rfl, by simp⟩

/-- A stream is gone after its CLOSE, and only then. -/
theorem Does.left {t : τ} {st : Stream} {d : Done} {subs : List Submission} {st' : Option Stream}
    (h : Does srv t st d subs st') : st' = none ↔ d.call.op = .close := by
  cases h with
  | close hop => simp [hop]
  | twice hop | put hop | putFailed hop | putRefused hop | getRefused hop | got hop | ended hop | getFailed hop
  | status hop => simp [hop]

section Steps

variable {w : Ram} {s : Channels τ} {c : Call}

/-- An OPEN by an IOCB without a stream. -/
theorem Mirrors.open_step (h : Mirrors w n s) (hop : c.op = .openIocb) (hfree : ∀ k, (w.owners k).own ≠ c.x)
    (hn : Exchanges (Serves srv) n (exchanges (perform c w).1.events) n') :
    Mirrors w n' s ∧ ((perform c w).2.owners ≠ w.owners → ∃ uri handle, Names c uri ∧ n.sessions handle = none ∧
      n' = n.served srv [] handle (some (srv.session n.server (openFrame c.mode uri))) ∧
      ∃ k, (w.owners k).own.msb = true ∧ (perform c w).2.owners = Function.update w.owners k (openedOwner c.x c.mode handle)) := by
  rcases perform_opens h.table hop hfree with ⟨hquiet, hsame⟩ | ⟨k, uri, reply, hk, hnames, hxs, hgrant⟩
  · rw [hquiet] at hn
    rw [hn.of_nil]
    exact ⟨h, fun hne => absurd hsame hne⟩
  · rw [hxs] at hn
    obtain ⟨hnet, hgranted⟩ := open_served hn.of_single (frameCommand_openFrame ..)
    refine ⟨?_, fun hne => ?_⟩
    · rcases hnet with rfl | ⟨handle, r, hnone, rfl⟩
      · exact h
      · exact h.session hnone r
    · rw [hgrant] at hne ⊢
      unfold grant at hne ⊢
      cases hr : reply.bind granted with
      | none =>
        rw [hr] at hne
        exact absurd rfl hne
      | some handle =>
        obtain ⟨hnone, hn'⟩ := hgranted handle hr
        exact ⟨uri, handle, hnames, hnone, hn', k, hk, rfl⟩

/-- A free record. -/
theorem TableOk.free (h : TableOk w) {k : Slot} (hk : (w.owners k).own.msb = true) : (w.owners k).own = 0xff := by
  refine (h.index k).resolve_right fun hfree => ?_
  revert hk hfree
  generalize (w.owners k).own = x
  revert x
  decide

/-- A call is a step of the device, and keeps the records, sessions and streams in accord. -/
theorem Mirrors.step (h : Mirrors w n s) (c : Call) (hn : Exchanges (Serves srv) n (exchanges (perform c w).1.events) n') :
    ∃ subs s', Channels.Step srv s (perform c w).1 subs s' ∧ Mirrors (perform c w).2 n' s' := by
  obtain ⟨hperf, hbusy⟩ := perform_spec c h.table
  have htable := hperf.tableOk h.table hbusy
  have hclose (k : Slot) := @perform_close_handle c w h.table k
  have hopen (hop : c.op = .openIocb) (hfree : ∀ k, (w.owners k).own ≠ c.x) := h.open_step hop hfree hn
  have hcall : (perform c w).1.call = c := rfl
  generalize (perform c w).1 = e at *
  generalize (perform c w).2 = w' at *
  cases hcall
  cases hperf with
  | invalid hx hy hevents hsame =>
    rw [hevents] at hn
    rw [hn.of_nil]
    have hnone : s.streams e.call.x = none := by
      cases hst : s.streams e.call.x with
      | none => rfl
      | some st =>
        obtain ⟨k, hk, hff⟩ := h.opened _ st hst
        have hindex := (h.table.index k).resolve_left (hk ▸ hff)
        exact absurd (hk ▸ hindex) hx
    exact ⟨[], s, .failed hnone (by rw [hy]; decide), h.same hsame hbusy⟩
  | unopened hop hfree hy hevents hsame =>
    rw [hevents] at hn
    rw [hn.of_nil]
    exact ⟨[], s, .failed (h.unopened hfree) (by rw [hy]; decide), h.same hsame hbusy⟩
  | failed hop hfree hy hsame => exact ⟨[], s, .failed (h.unopened hfree) hy, (hopen hop hfree).1.same hsame hbusy⟩
  | opened hop hx hfree k hk handle hmode hy howners hcaches =>
    have hne : w'.owners ≠ w.owners := fun heq => hfree k (by rw [← heq, howners, Function.update_self]; rfl)
    obtain ⟨uri, handle, hnames, hnone, rfl, k, hk, hnew⟩ := (hopen hop hfree).2 hne
    have hother (j : Slot) (hj : j ≠ k) : w'.owners j = w.owners j := by rw [hnew, Function.update_of_ne hj]
    have hself : w'.owners k = openedOwner e.call.x e.call.mode handle := by rw [hnew, Function.update_self]
    have hcached : cached k w' = [] := cached_eq_nil.2 (by rw [hself]; rfl)
    refine ⟨[], _, .opened hop (h.unopened hfree) hnames hy, h.update htable hother ?_ (fun j _ => hfree j)
      (.inr (h.table.free hk)) ?_ ?_ ?_⟩
    · intro j hj hjlive
      exact cached_congr (hother j hj) (fun i _ => by rw [half, half, hcaches]) (h.table.live j hjlive).len
    · intro j _ hjlive heq
      obtain ⟨st, r, -, hr, -⟩ := h.stream j hjlive
      rw [heq, hnone] at hr
      cases hr
    · intro _
      rw [hself, hcached, h.server]
      exact ⟨rfl, rfl, _, _, rfl, rfl, opened_stands srv n.server hnames.name.short⟩
    · intro st₁ _
      rw [hself]
      exact ⟨rfl, invalid_of_ff hx⟩
  | ran hx k hk hcall hframes hother hhalf =>
    have hff := invalid_of_ff hx
    have hlive : (w.owners k).own ≠ 0xff := hk ▸ hff
    obtain ⟨st, r, hst, hr, hstands⟩ := h.stream k hlive
    obtain ⟨subs, st', r', hdoes, rfl, hleft⟩ := hcall.carried (h.table.live k hlive) (length_cached k w)
      (fun hop x hx' => hclose k hlive hk hop hx') hstands hr hn
    obtain ⟨-, hown⟩ := hcall.ok (length_cached k w) (h.table.live k hlive)
    have hgone (st₁ : Stream) (hst₁ : st' = some st₁) : e.call.op ≠ .close := fun hop => by
      rw [hdoes.left.2 hop] at hst₁
      cases hst₁
    rw [hk] at hst
    rw [← h.server] at hdoes
    refine ⟨subs, s.served srv subs e.call.x st', .did hst hdoes, h.update htable hother ?_ ?_ (.inl hk) ?_ ?_ ?_⟩
    · intro j hj hjlive
      exact cached_congr (hother j hj) (hhalf j hj) (h.table.live j hjlive).len
    · intro j hj heq
      exact hj (h.table.distinct j k (heq.trans hk.symm) (heq ▸ hff))
    · intro j hj hjlive heq
      exact hj (h.handles j k hjlive hlive heq)
    · intro hlive'
      have hop : e.call.op ≠ .close := fun hop => by
        rw [hown, if_pos hop] at hlive'
        exact hlive' rfl
      rw [if_neg hop, hk] at hown
      cases hst' : st' with
      | none => exact absurd (hdoes.left.1 hst') hop
      | some st₁ =>
        obtain ⟨s', hr', hstands'⟩ := hleft st₁ hst'
        exact ⟨hown, hcall.handle, st₁, s', rfl, hr', hstands'⟩
    · intro st₁ hst₁
      rw [if_neg (hgone st₁ hst₁), hk] at hown
      exact ⟨hown, hff⟩

end Steps

/-! ### Runs -/

theorem history_snoc (calls : List Call) (c : Call) : history (calls ++ [c]) = history calls ++ [(perform c (after calls)).1] :=
  handler.outputs_append ..

theorem Mirrors.run {t : τ} {calls : List Call} (hn : Exchanges (Serves srv) (Network.start t) (exchanges (events (history calls))) n) :
    ∃ run s, run.map Prod.fst = history calls ∧ Channels.Run srv (Channels.start t) run s ∧ Mirrors (after calls) n s := by
  induction calls using List.reverseRecOn generalizing n with
  | nil =>
    rw [show exchanges (events (history [])) = [] from rfl] at hn
    rw [hn.of_nil]
    exact ⟨[], _, rfl, .nil, .start t⟩
  | append_singleton calls c ih =>
    rw [history_snoc, events_snoc, exchanges_append] at hn
    obtain ⟨n₁, hcalls, hc⟩ := hn.split
    obtain ⟨run, s, hrun, hsteps, hmirrors⟩ := ih hcalls
    obtain ⟨subs, s', hstep, hmirrors'⟩ := hmirrors.step c hc
    have hafter : after (calls ++ [c]) = (perform c (after calls)).2 := handler.final_append ..
    rw [hafter, history_snoc]
    exact ⟨run ++ [((perform c (after calls)).1, subs)], s', by rw [List.map_append, hrun]; rfl, .snoc hsteps hstep, hmirrors'⟩

end NioApps.Resident
