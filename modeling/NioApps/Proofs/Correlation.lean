import NioApps.Sanity.Ordered
import NioApps.Sanity.Prompt

/-! What follows from the transaction discipline alone: W frames are separated by
a completion that resolves the earlier one, and a response that `exchange`
accepts is the device's response to the W of that `exchange`. -/

namespace NioApps.Resident

open Transaction

/-- A W frame. -/
def Event.IsW : Event → Prop
  | .sio dcb _ _ => dcb.command = cmdW
  | _ => False

instance : DecidablePred Event.IsW
  | .sio dcb _ _ => inferInstanceAs (Decidable (dcb.command = cmdW))
  | .exchange .. | .store _ => isFalse id

/-- An R that completed with status 1, or a P that did and whose first byte was 0. -/
def Event.Resolves : Event → Prop
  | .sio dcb status bytes =>
    status = 1 ∧ (dcb.command = cmdR ∨ dcb.command = cmdP ∧ bytes.head? = some 0)
  | _ => False

/-- A return of `exchange`. -/
def Event.IsExchange : Event → Prop
  | .exchange _ _ => True
  | _ => False

theorem Event.IsW.turn {e : Event} (h : e.IsW) : ∃ q ok, e.turn = some (.send q ok) := by
  cases e with
  | sio dcb status bytes => exact ⟨bytes, _, if_pos h⟩
  | exchange frame reply => exact h.elim
  | store b => exact h.elim

theorem report_eq_idle {bytes : List Byte} (h : report bytes = .idle) : bytes.head? = some 0 := by
  cases bytes with
  | nil => exact absurd h (by simp [report])
  | cons b rest =>
    by_contra hb
    exact report_ne_idle (by simpa using hb) rest h

theorem Event.resolves_of_turn {e : Event} {t : Ev (List Byte) (List Byte)} (he : e.turn = some t)
    (ht : t.Resolves) : e.Resolves := by
  cases e with
  | sio dcb status bytes =>
    simp only [Event.turn] at he
    split_ifs at he with hw hp hs hr hs'
    all_goals cases he
    · exact ht.elim
    · cases hrep : report bytes with
      | idle => exact ⟨hs, .inr ⟨hp, report_eq_idle hrep⟩⟩
      | busy => exact (by simp [hrep, Ev.Resolves] at ht : False).elim
      | ready n => exact (by simp [hrep, Ev.Resolves] at ht : False).elim
    · exact ht.elim
    · exact ⟨hs', .inl hr⟩
    · exact ht.elim
  | exchange frame reply =>
    cases he
    exact ht.elim
  | store b => cases he

/-- Between two W frames of a run of CIO calls, by either owner, an R completed
or a P completed that reported the device idle. -/
theorem w_frames_resolved (calls : List Call) (pre mid post : List Event) (w w' : Event)
    (hrun : events (history calls) = pre ++ w :: mid ++ w' :: post) (hw : w.IsW) (hw' : w'.IsW) :
    ∃ e ∈ mid, e.Resolves := by
  obtain ⟨q, ok, hq⟩ := hw.turn
  obtain ⟨q', ok', hq'⟩ := hw'.turn
  have hmoves := history_moves calls
  have hsplit : turns (pre ++ w :: mid ++ w' :: post) =
      turns pre ++ .send q ok :: turns mid ++ .send q' ok' :: turns post := by
    simp [turns, hq, hq']
  rw [hrun, hsplit] at hmoves
  obtain ⟨t, ht, hres⟩ := hmoves.send_resolved
  obtain ⟨e, he, het⟩ := List.mem_filterMap.1 ht
  exact ⟨e, he, Event.resolves_of_turn het hres⟩

/-- After an OPEN, a STATUS sends the next W. -/
theorem w_frames_resolved_open_status :
    let es := events (history [channelOpen 4, channelCall .status 4 0 []])
    ∃ e ∈ (es.drop 1).take 3, e.Resolves :=
  let es := events (history [channelOpen 4, channelCall .status 4 0 []])
  w_frames_resolved [channelOpen 4, channelCall .status 4 0 []] [] ((es.drop 1).take 3) (es.drop 5)
    (es.getD 0 (.store 0)) (es.getD 4 (.store 0)) (by decide +kernel) (by decide +kernel) (by decide +kernel)

/-- The W frames among some events. -/
def wCount (es : List Event) : ℕ := sends (turns es)

/-- A device that holds at most one transaction and was idle when the handler
was initialised can have taken part in the events `es`; `resp n` is its response
to the W frame number `n` of the run. -/
def DeviceRun (resp : ℕ → List Byte) (es : List Event) : Prop :=
  ∃ d, Device.Run List.length resp (turns es) d

theorem turns_eq_append {es : List Event} {ts us : List (Ev (List Byte) (List Byte))}
    (h : turns es = ts ++ us) : ∃ es₁ es₂, es = es₁ ++ es₂ ∧ turns es₁ = ts ∧ turns es₂ = us :=
  List.filterMap_eq_append_iff.1 h

/-- A send among the moves is a W frame among the events. -/
theorem Event.of_turn_send {e : Event} {q : List Byte} {ok : Bool} (h : e.turn = some (.send q ok)) :
    ∃ dcb status, e = .sio dcb status q ∧ dcb.command = cmdW := by
  cases e with
  | sio dcb status bytes =>
    simp only [Event.turn] at h
    split_ifs at h with hw
    all_goals cases h
    exact ⟨dcb, status, rfl, hw⟩
  | exchange frame reply => cases h
  | store b => cases h

/-- An event that is a wait of the host, or no move, neither sends nor ends a request. -/
theorem Event.inside {e : Event} (h : ∀ t, e.turn = some t → t.Waits) : ¬e.IsW ∧ ¬e.IsExchange := by
  refine ⟨fun hw => ?_, fun hx => ?_⟩
  · obtain ⟨q, ok, hq⟩ := hw.turn
    exact h _ hq
  · cases e with
    | exchange frame reply => exact h _ rfl
    | _ => exact hx

/-- A response that `exchange` accepts is the device's response to the W frame
that this `exchange` sent: the last W before it returned, after which there were
only P and R. -/
theorem response_correlated (calls : List Call) (resp : ℕ → List Byte) (pre post : List Event)
    (frame reply : List Byte)
    (hrun : events (history calls) = pre ++ .exchange frame (some reply) :: post)
    (hdev : DeviceRun resp (events (history calls))) :
    ∃ before dcb status mid, pre = before ++ .sio dcb status frame :: mid ∧ dcb.command = cmdW ∧
      (∀ e ∈ mid, ¬e.IsW ∧ ¬e.IsExchange) ∧ reply = resp (wCount before) := by
  obtain ⟨d, hd⟩ := hdev
  have hmoves := history_moves calls
  have hsplit : turns (pre ++ .exchange frame (some reply) :: post) =
      turns pre ++ .done frame (some reply) :: turns post := by
    simp [turns, Event.turn]
  rw [hrun, hsplit] at hmoves hd
  obtain ⟨before, ok, mid, hpre, hwaits, hreply⟩ := correlated hmoves hd
  obtain ⟨es₁, es₂, rfl, rfl, hes₂⟩ := turns_eq_append hpre
  obtain ⟨skip, w, es₃, rfl, hskip, hw, rfl⟩ := List.filterMap_eq_cons_iff.1 hes₂
  obtain ⟨dcb, status, rfl, hcmd⟩ := Event.of_turn_send hw
  have hcount : wCount (es₁ ++ skip) = sends (turns es₁) := by
    have : turns skip = [] := List.filterMap_eq_nil_iff.2 hskip
    simp [wCount, this]
  refine ⟨es₁ ++ skip, dcb, status, es₃, by simp, hcmd, fun e he => ?_, hcount ▸ hreply⟩
  exact Event.inside fun t ht => hwaits t (List.mem_filterMap.2 ⟨e, he, ht⟩)

/-- An OPEN whose response became ready at once. -/
theorem response_correlated_open :
    let es := events (history [channelOpen 4])
    let reply := replyBytes 1 [1, 0, 0, 0, 5, 0, 0]
    ∃ before dcb status mid, es.take 3 = before ++ .sio dcb status ((wFrames es).getD 0 []) :: mid ∧
      dcb.command = cmdW ∧ (∀ e ∈ mid, ¬e.IsW ∧ ¬e.IsExchange) ∧ reply = [reply].getD (wCount before) [] := by
  intro es reply
  refine response_correlated [channelOpen 4] (fun n => [reply].getD n []) (es.take 3) []
    ((wFrames es).getD 0 []) reply (by decide +kernel) ⟨.idle, ?_⟩
  have hturns : turns es = [.send ((wFrames es).getD 0 []) true, .poll (some (.ready 13)), .fetch (some reply),
      .done ((wFrames es).getD 0 []) (some reply)] := rfl
  rw [hturns]
  change Device.Run _ _ ([] ++ [_] ++ [_] ++ [_] ++ [_]) _
  exact .snoc (.snoc (.snoc (.finish (.snoc .nil (.taken _ true))) (.reportReady _)) (.fetched _)) (.done _ _ _)

end NioApps.Resident
