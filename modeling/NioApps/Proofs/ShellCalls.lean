import NioApps.Proofs.DiskErrors
import NioApps.Spec.Shell

/-! What FIN, FOUT, FMOUNT, FUMOUNT and FBOOT do, whatever fails: each command line changes
the slots, the units and what is on the wire only in the way its arguments ask for. -/

namespace NioApps.Shell

open Abort Commands Service

variable {σ τ : Type} {e : Setup σ τ} {slots : σ → Slots}

/-! ### Effects -/

section Effects

variable (e)

/-- The request of a drive's action was sent. If the reply grants it, the unit's slot is recorded,
and the exit code says whether that worked; if not, the program ends with 2. -/
def Sends (call : DiskCall) (unit slot : Byte) (before after : Machine σ τ) (code : ℕ) : Prop :=
  after.client.sent = before.client.sent ++ [call.request] ∧
    (call.Granted (before.client.reply call.request) ∧ after.units = (e.platform.setUnitSlot unit slot before.units).2 ∧
        code = (if (e.platform.setUnitSlot unit slot before.units).1 then 0 else 2) ∨
      ¬ call.Granted (before.client.reply call.request) ∧ after.units = before.units ∧ code = 2)

/-- A call of the catalog that is to make the slots `m`; one that failed has done its work or not. -/
def Leaves (ok : Prop) (before m after : Slots) (code : ℕ) : Prop :=
  ok ∧ after = m ∧ code = 0 ∨ ¬ ok ∧ (after = m ∨ after = before) ∧ code = 2

/-- `fnsvc_set_mount` takes the length of the path. -/
def FitsSlot (path : List Byte) : Prop := (BitVec.ofNat 16 path.length).toNat ≤ mountUriMax

instance (path : List Byte) : Decidable (FitsSlot path) := inferInstanceAs (Decidable (_ ≤ _))

/-- The effect of FIN on the slots. -/
def Selects (slots : σ → Slots) (slot : Byte) (path : List Byte) (before after : Machine σ τ) (code : ℕ) : Prop :=
  if FitsSlot path then
    Leaves (∃ entry, (e.catalog.put slot false path before.catalog).1 = .ok entry) (slots before.catalog)
      (Function.update (slots before.catalog) slot (some (false, path))) (slots after.catalog) code
  else slots after.catalog = slots before.catalog ∧ code = 2

/-- The effect of FOUT on the slots. -/
def Clears (slots : σ → Slots) (slot : Byte) (before after : Machine σ τ) (code : ℕ) : Prop :=
  Leaves (∀ err, (e.catalog.delete slot before.catalog).1 = .error err → err = e.catalog.notFound) (slots before.catalog)
    (Function.update (slots before.catalog) slot none) (slots after.catalog) code

/-- The catalog says what the slot has. -/
def Catalog.Reads (catalog : Catalog σ) (slot : Byte) (s : σ) : Prop :=
  ∀ err, (catalog.get slot s).1 = .error err → err = catalog.notFound

/-- The effect of an action: on the slots, on the units and on the wire, with the exit code. -/
inductive Does (slots : σ → Slots) (before : Machine σ τ) : Option Action → ℕ → Machine σ τ → Prop
  | refused (after : Machine σ τ) (hwire : after.client.sent = before.client.sent) (hunits : after.units = before.units)
      (hslots : slots after.catalog = slots before.catalog) : Does slots before none 1 after
  | select (slot : Byte) (path : List Byte) (after : Machine σ τ) (code : ℕ) (hwire : after.client.sent = before.client.sent)
      (hunits : after.units = before.units) (hslots : Selects e slots slot path before after code) :
      Does slots before (some (.select slot path)) code after
  | clear (slot : Byte) (after : Machine σ τ) (code : ℕ) (hwire : after.client.sent = before.client.sent)
      (hunits : after.units = before.units) (hslots : Clears e slots slot before after code) :
      Does slots before (some (.clear slot)) code after
  | noImage (a : MountArgs) (after : Machine σ τ)
      (hnone : ¬ e.catalog.Reads a.slot before.catalog ∨
        ∀ readOnly uri, slots before.catalog a.slot = some (readOnly, uri) → mountUri uri = [])
      (hwire : after.client.sent = before.client.sent) (hunits : after.units = before.units)
      (hslots : slots after.catalog = slots before.catalog) : Does slots before (some (.mount a)) 2 after
  | mount (a : MountArgs) (readOnly : Bool) (uri : List Byte) (after : Machine σ τ) (code : ℕ)
      (hreads : e.catalog.Reads a.slot before.catalog) (hslot : slots before.catalog a.slot = some (readOnly, uri))
      (huri : mountUri uri ≠ []) (hunit : a.unit < maxUnits)
      (hsends : Sends e (.mount a.unit (mountUri uri) a.readOnly a.sectorSize) a.unit a.unit before after code)
      (hslots : slots after.catalog = slots before.catalog) : Does slots before (some (.mount a)) code after
  | unmount (unit : Byte) (after : Machine σ τ) (code : ℕ) (hunit : unit < maxUnits)
      (hsends : Sends e (.unmount unit) unit 0 before after code) (hslots : slots after.catalog = slots before.catalog) :
      Does slots before (some (.unmount unit)) code after
  | restore (unit : Byte) (after : Machine σ τ) (code : ℕ) (hunit : unit < maxUnits)
      (hsends : Sends e (.restoreBoot unit) unit unit before after code)
      (hslots : slots after.catalog = slots before.catalog) : Does slots before (some (.restore unit)) code after

end Effects

/-- Nothing that outlives the program has changed. -/
structure Still (slots : σ → Slots) (s s' : Machine σ τ) : Prop where
  sent : s'.client.sent = s.client.sent
  answer : s'.client.answer = s.client.answer
  units : s'.units = s.units
  slots : slots s'.catalog = slots s.catalog

theorem Still.refl (s : Machine σ τ) : Still slots s s := ⟨rfl, rfl, rfl, rfl⟩

theorem Still.trans {s s' s'' : Machine σ τ} (h : Still slots s s') (h' : Still slots s' s'') : Still slots s s'' :=
  ⟨h'.sent.trans h.sent, h'.answer.trans h.answer, h'.units.trans h.units, h'.slots.trans h.slots⟩

/-! ### Steps of a program -/

section Steps

variable {α β : Type} {Q : α → Machine σ τ → Prop} {E : Machine σ τ → Prop} {s : Machine σ τ}

theorem wp_set {s' : Machine σ τ} {R : PUnit → Machine σ τ → Prop} :
    wp (set s' : Program σ τ PUnit) R E s ↔ R ⟨⟩ s' := Iff.rfl

theorem wp_service {m : Svc α} :
    wp (service m) Q E s ↔ wp m (fun a c => Q a { s with client := c }) (fun c => E { s with client := c }) s.client := by
  simp only [wp, service, EStateM.run]
  cases m s.client <;> rfl

theorem wp_print {bs : List Byte} {R : PUnit → Machine σ τ → Prop} :
    wp (print bs) R E s ↔ R ⟨⟩ { s with out := s.out ++ bs } := Iff.rfl

end Steps

/-! ### The slot catalog -/

/-- The mount that was read is the slot's. -/
structure Read (e : Setup σ τ) (slots : σ → Slots) (s : Machine σ τ) (slot : Byte) (ok : Bool) (mount : Mount) : Prop where
  result : ok = true ↔ e.catalog.Reads slot s.catalog
  image : mount.enabled = true → ∃ readOnly uri, slots s.catalog slot = some (readOnly, uri) ∧ mount.uri = mountUri uri
  none : ok = true → mount.enabled = false → slots s.catalog slot = none

theorem getMount_wp (hK : Keeps e.catalog slots) (slot : Byte) (s : Machine σ τ) :
    wp (getMount e slot) (fun r s' => Still slots s s' ∧ Read e slots s slot r.1 r.2) (fun _ => False) s := by
  obtain ⟨hsame, hok, hmissing⟩ := hK.get slot s.catalog
  have hreads : e.catalog.Reads slot s.catalog ↔ ∀ err, (e.catalog.get slot s.catalog).1 = .error err → err = e.catalog.notFound :=
    Iff.rfl
  rw [getMount, wp_bind, wp_get]
  rcases hget : e.catalog.get slot s.catalog with ⟨result, catalog⟩
  rw [hget] at hsame hok hmissing hreads
  have hstill : Still slots s { s with catalog } := ⟨rfl, rfl, rfl, hsame⟩
  rw [wp_bind, wp_set]
  cases result with
  | error code =>
    refine wp_ite (fun hcode => ⟨hstill, ?_, nofun, fun _ _ => hmissing (hcode ▸ rfl)⟩) fun hcode => ?_
    · exact iff_of_true rfl (hreads.2 fun err herr => (Except.error.inj herr).symm.trans hcode)
    · exact ⟨⟨rfl, rfl, rfl, hsame⟩, iff_of_false nofun fun h => hcode (hreads.1 h code rfl), nofun, nofun⟩
  | ok entry =>
    have hyes : true = true ↔ e.catalog.Reads slot s.catalog := iff_of_true rfl (hreads.2 nofun)
    have hslot := hok entry rfl
    refine wp_ite (fun hentry => ⟨hstill, hyes, nofun, fun _ _ => ?_⟩) fun hentry => ⟨hstill, hyes, fun _ => ?_, nofun⟩
    · rw [hslot, if_pos hentry]
    · rw [if_neg hentry] at hslot
      exact ⟨entry.readOnly, entry.uri, hslot, rfl⟩

theorem select_wp (hK : Keeps e.catalog slots) (slot : Byte) {path : List Byte} (hpath : path ≠ []) (s : Machine σ τ) :
    wp (setMount e slot path "rw" true)
      (fun ok s' => s'.client.sent = s.client.sent ∧ s'.client.answer = s.client.answer ∧ s'.units = s.units ∧
        Selects e slots slot path s s' (if ok then 0 else 2)) (fun _ => False) s := by
  rw [setMount, if_neg (by decide), if_neg hpath]
  refine wp_ite (fun hlarge => ⟨rfl, rfl, rfl, ?_⟩) fun hlarge => ?_
  · have hfits : ¬ FitsSlot path := by
      rw [FitsSlot, mountUriMax]
      simp only [mountUriMax, maxData] at hlarge
      omega
    rw [Selects, if_neg hfits]
    exact ⟨rfl, rfl⟩
  have hfits : FitsSlot path := not_lt.1 fun h => hlarge (Or.inl h)
  have hput := hK.put slot (decide (("rw" : String) = "r")) path s.catalog hpath
  rw [wp_bind, wp_get]
  rcases hrun : e.catalog.put slot (decide (("rw" : String) = "r")) path s.catalog with ⟨result, catalog⟩
  have hresult : (e.catalog.put slot false path s.catalog).1 = result := congrArg Prod.fst hrun
  rw [hrun] at hput
  rw [wp_bind, wp_set]
  cases result with
  | error code =>
    refine ⟨rfl, rfl, rfl, ?_⟩
    rw [Selects, if_pos hfits, hresult]
    exact Or.inr ⟨(by rintro ⟨entry, ⟨⟩⟩), hput.imp_right And.right, rfl⟩
  | ok entry =>
    refine ⟨rfl, rfl, rfl, ?_⟩
    rw [Selects, if_pos hfits, hresult]
    rcases hput with hput | ⟨⟨code, hcode⟩, -⟩
    · exact Or.inl ⟨⟨entry, rfl⟩, hput, rfl⟩
    · cases hcode

theorem clear_wp (hK : Keeps e.catalog slots) (slot : Byte) (s : Machine σ τ) :
    wp (setMount e slot [] "r" false)
      (fun ok s' => s'.client.sent = s.client.sent ∧ s'.client.answer = s.client.answer ∧ s'.units = s.units ∧
        Clears e slots slot s s' (if ok then 0 else 2)) (fun _ => False) s := by
  have hdelete := hK.delete slot s.catalog
  rw [setMount, if_pos rfl, wp_bind, wp_get]
  rcases hrun : e.catalog.delete slot s.catalog with ⟨result, catalog⟩
  have hresult : (e.catalog.delete slot s.catalog).1 = result := congrArg Prod.fst hrun
  rw [hrun] at hdelete
  rw [wp_bind, wp_set]
  cases result with
  | error code =>
    refine wp_ite (fun hcode => ⟨rfl, rfl, rfl, ?_⟩) fun hcode => ⟨rfl, rfl, rfl, ?_⟩
    · rw [Clears, hresult]
      exact Or.inr ⟨fun h => hcode (h code rfl), hdelete.imp_right And.right, rfl⟩
    · have hfound : code = e.catalog.notFound := not_not.1 hcode
      rw [Clears, hresult]
      refine Or.inl ⟨fun err herr => (Except.error.inj herr).symm.trans hfound, ?_, rfl⟩
      rcases hdelete with hdelete | ⟨⟨code', hcode', hne⟩, -⟩
      · exact hdelete
      · cases hcode'
        exact absurd hfound hne
  | ok deleted =>
    refine ⟨rfl, rfl, rfl, ?_⟩
    rw [Clears, hresult]
    refine Or.inl ⟨nofun, ?_, rfl⟩
    rcases hdelete with hdelete | ⟨⟨code, hcode, -⟩, -⟩
    · exact hdelete
    · cases hcode

/-! ### Disk calls -/

theorem diskMount_returns (d : DiskErr) (slot : Byte) {uri : List Byte} (readonly : Byte) (hint : Word) (c : Client)
    (hshort : uri.length ≤ mountUriMax) :
    wp (diskMount d slot uri readonly hint) (fun _ _ => True) (fun _ => False) c := by
  rw [diskMount]
  refine wp_ite (fun _ => trivial) fun _ => ?_
  refine wp.seq ((mountRequest_wp ..).mono (fun _ _ => id) fun _ ho => ?_) fun off c₁ h₁ => ?_
  · have hlarge := ho.large
    have hlen : (uri.take (BitVec.ofNat 16 uri.length).toNat).length ≤ uri.length := by
      rw [List.length_take]
      exact Nat.min_le_right _ _
    simp only [mountBytes, u16le, List.length_append, List.length_cons, List.length_nil, maxData, mountUriMax] at *
    omega
  · exact h₁.service (by decide) (fun _ => trivial) fun _ => trivial

theorem slotRequest_returns {α : Type} {f : Word → Svc α} {Q : α → Client → Prop} {c : Client} (slot : Byte)
    (hf : ∀ off c', Written c ([diskVersion] ++ [slot + 1]) off c' → wp (f off) Q (fun _ => False) c') :
    wp (do
      let off ← put 0 [diskVersion]
      let off ← put off [slot + 1]
      f off) Q (fun _ => False) c :=
  (Written.nil c).nextFit (by decide) fun _ _ h₁ => h₁.nextFit (by simp [maxData]) hf

theorem diskUnmount_returns (d : DiskErr) (slot : Byte) (c : Client) :
    wp (diskUnmount d slot) (fun _ _ => True) (fun _ => False) c := by
  rw [diskUnmount]
  refine wp_ite (fun _ => trivial) fun _ => ?_
  refine slotRequest_returns slot fun off c₁ h₁ => ?_
  exact h₁.service (by decide) (fun _ => trivial) fun _ => trivial

theorem restoreResponse_returns (respLen : Word) (c : Client) :
    wp (restoreResponse respLen) (fun _ _ => True) (fun _ => False) c := by
  rw [restoreResponse]
  refine wp_ite (fun _ => trivial) fun _ => ?_
  rw [wp_bind, wp_of_ok (getByte_run (by decide) c)]
  exact wp_ite (fun _ => trivial) fun _ => trivial

theorem diskRestoreBoot_returns (d : DiskErr) (slot : Byte) (c : Client) :
    wp (diskRestoreBoot d slot) (fun _ _ => True) (fun _ => False) c := by
  rw [diskRestoreBoot]
  refine wp_ite (fun _ => trivial) fun _ => ?_
  rw [wp_bind, wp_modify]
  refine slotRequest_returns slot fun off c₁ h₁ => ?_
  refine h₁.service (by decide) (fun _ => trivial) fun _ => ?_
  rw [wp_bind, wp_modify, wp_bind, wp_modify]
  exact wp_ite (fun _ => trivial) fun _ => restoreResponse_returns _ _

/-- What one of the three disk calls leaves: its request on the wire, once, and its result. -/
structure Sent (slots : σ → Slots) (call : DiskCall) (s : Machine σ τ) (ok : Bool) (s' : Machine σ τ) : Prop where
  granted : ok = true ↔ call.Granted (s.client.reply call.request)
  sent : s'.client.sent = s.client.sent ++ [call.request]
  answer : s'.client.answer = s.client.answer
  units : s'.units = s.units
  slots : slots s'.catalog = slots s.catalog

theorem Still.sent_trans {call : DiskCall} {ok : Bool} {s s' s'' : Machine σ τ} (h : Still slots s s') (h' : Sent slots call s' ok s'') :
    Sent slots call s ok s'' where
  granted := by
    have hreply : s'.client.reply call.request = s.client.reply call.request := by
      rw [Client.reply, Client.reply, h.sent, h.answer]
    rw [← hreply]
    exact h'.granted
  sent := by rw [h'.sent, h.sent]
  answer := h'.answer.trans h.answer
  units := h'.units.trans h.units
  slots := h'.slots.trans h.slots

theorem diskCall_wp (slots : σ → Slots) {call : DiskCall} {m : Svc Bool} (hreturns : ∀ c, wp m (fun _ _ => True) (fun _ => False) c)
    (hcalled : ∀ c, wp m (Called e.diskErr call c) (fun _ => True) c) (s : Machine σ τ) :
    wp (service m) (fun ok s' => Sent slots call s ok s') (fun _ => False) s := by
  rw [wp_service]
  refine ((hreturns s.client).and (hcalled s.client)).mono (fun ok c' h => ?_) fun c' h => h.1
  exact ⟨h.2.result, h.2.sent, h.2.answer, rfl, rfl⟩

/-! ### Drives -/

theorem driveToUnit_lt {c : Byte} {units : τ} {unit : Byte} (h : driveToUnit e c units = some unit) : unit < maxUnits := by
  have hmem := List.mem_of_find?_eq_some h
  obtain ⟨i, hi, rfl⟩ := List.mem_map.1 hmem
  rw [List.mem_range] at hi
  have hall : ∀ i < 8, BitVec.ofNat 8 i < maxUnits := by decide
  exact hall i hi

theorem unitOf_lt {units : τ} {arg : List Byte} {use : String} {c unit : Byte} (h : unitOf e units arg use = .ok (c, unit)) :
    unit < maxUnits := by
  rw [unitOf] at h
  split_ifs at h with hq
  cases hletter : driveLetter arg with
  | none =>
    rw [hletter] at h
    cases h
  | some c' =>
    rw [hletter] at h
    dsimp only at h
    cases hunit : driveToUnit e c' units with
    | none =>
      rw [hunit] at h
      cases h
    | some unit' =>
      rw [hunit] at h
      cases h
      exact driveToUnit_lt hunit

theorem fumountArgs_lt {units : τ} {args : List (List Byte)} {c unit : Byte} (h : fumountArgs e units args = .ok (c, unit)) :
    unit < maxUnits := by
  rcases args with _ | ⟨arg, _ | ⟨x, rest⟩⟩
  · cases h
  · exact unitOf_lt h
  · cases h

theorem fbootArgs_lt {units : τ} {args : List (List Byte)} {unit : Byte} (h : fbootArgs e units args = .ok unit) :
    unit < maxUnits := by
  rcases args with _ | ⟨arg, _ | ⟨x, rest⟩⟩
  · cases h
    decide
  · rw [fbootArgs] at h
    cases hunit : unitOf e units arg "Usage: FBOOT [drive:]" with
    | error text =>
      rw [hunit] at h
      cases h
    | ok p =>
      rw [hunit] at h
      cases h
      exact unitOf_lt hunit
  · cases h

theorem checked_lt {a b : MountArgs} (h : a.checked e = .ok b) : b.unit < maxUnits := by
  rw [MountArgs.checked] at h
  split_ifs at h with hge
  cases h
  exact BitVec.not_le.1 hge

theorem mountArgs_lt {units : τ} {args : List (List Byte)} {typed : List Byte} {a : MountArgs}
    (h : (mountArgs e units args typed).2 = .ok a) : a.unit < maxUnits := by
  rcases args with _ | ⟨arg, rest⟩
  · rw [mountArgs] at h
    split_ifs at h with ht
    rcases hasked : Console.asked (mountPrompt e units) typed with ⟨printed, _ | a'⟩
    · rw [hasked] at h
      cases h
    · rw [hasked] at h
      exact checked_lt h
  · rw [mountArgs] at h
    split_ifs at h with hq
    rcases hparse : parseU8 (some arg) (some 0) with ⟨_ | _, _ | slot⟩ <;> rw [hparse] at h
    · cases h
    · cases h
    · cases h
    · dsimp only at h
      cases hfold : rest.foldlM (fun a arg => mountOption e units arg a) ⟨slot, slot, 0, 0⟩ with
      | error text =>
        rw [hfold] at h
        cases h
      | ok a' =>
        rw [hfold] at h
        exact checked_lt h

theorem finPath_ne {p : Byte × List Byte} {slot : Byte} {path : List Byte} (h : finPath p = .ok (slot, path)) : path ≠ [] := by
  rw [finPath] at h
  split_ifs at h with hnil
  cases h
  exact hnil

theorem finArgs_path {args : List (List Byte)} {typed : List Byte} {slot : Byte} {path : List Byte}
    (h : (finArgs e args typed).2 = .ok (slot, path)) : path ≠ [] := by
  rcases args with _ | ⟨arg, _ | ⟨arg', _ | ⟨x, rest⟩⟩⟩
  · rw [finArgs] at h
    split_ifs at h with ht
    rcases hasked : Console.asked (finPrompt e) typed with ⟨printed, _ | p⟩
    · rw [hasked] at h
      cases h
    · rw [hasked] at h
      exact finPath_ne h
  · rw [finArgs] at h
    split_ifs at h with hq
    exact finPath_ne h
  · rw [finArgs] at h
    split_ifs at h with hq
    rcases hparse : parseU8 (some arg) (some 0) with ⟨_ | _, _ | v⟩ <;> rw [hparse] at h
    · cases h
    · cases h
    · cases h
    · exact finPath_ne h
  · cases h

/-! ### The commands -/

section Mains

variable {s : Machine σ τ}

theorem Selects.still {slot : Byte} {path : List Byte} {s s₁ s₂ : Machine σ τ} {code : ℕ} (h : Selects e slots slot path s s₁ code)
    (hsame : slots s₂.catalog = slots s₁.catalog) : Selects e slots slot path s s₂ code := by
  rw [Selects, hsame]
  exact h

theorem fin_does (hK : Keeps e.catalog slots) (args : List (List Byte)) (typed : List Byte) (s : Machine σ τ) :
    wp (fin e args typed) (fun code s' => Does e slots s ((Line.fin args typed).action e s.units) code s' ∧
      s'.client.answer = s.client.answer) (fun _ => False) s := by
  rw [fin, Line.action]
  rcases hargs : finArgs e args typed with ⟨printed, text | ⟨slot, path⟩⟩
  · exact ⟨.refused _ rfl rfl rfl, rfl⟩
  · have hpath : path ≠ [] := finArgs_path (congrArg Prod.snd hargs)
    rw [wp_bind, wp_print]
    refine wp.seq (select_wp hK slot hpath _) fun ok s₁ h => ?_
    obtain ⟨hsent, hanswer, hunits, hslots⟩ := h
    refine wp_ite (fun hfail => ?_) fun hok => ?_
    · rw [Bool.not_eq_true'] at hfail
      rw [hfail] at hslots
      exact ⟨.select slot path _ 2 hsent hunits hslots, hanswer⟩
    · rw [Bool.not_eq_true', Bool.not_eq_false] at hok
      rw [hok] at hslots
      refine wp.seq (getMount_wp hK slot s₁) fun r s₂ h => ?_
      obtain ⟨hstill, -⟩ := h
      have hdone : ∀ bs, Does e slots s (some (.select slot path)) 0 { s₂ with out := s₂.out ++ bs } := fun bs =>
        .select slot path _ 0 (hstill.sent.trans hsent) (hstill.units.trans hunits) (hslots.still hstill.slots)
      have hans := hstill.answer.trans hanswer
      exact wp_ite (fun _ => ⟨hdone _, hans⟩) fun _ => ⟨hdone _, hans⟩

theorem fout_does (hK : Keeps e.catalog slots) (args : List (List Byte)) (typed : List Byte) (s : Machine σ τ) :
    wp (fout e args typed) (fun code s' => Does e slots s ((Line.fout args typed).action e s.units) code s' ∧
      s'.client.answer = s.client.answer) (fun _ => False) s := by
  rw [fout, Line.action]
  rcases foutArgs e args typed with ⟨printed, text | slot⟩
  · exact ⟨.refused _ rfl rfl rfl, rfl⟩
  · rw [wp_bind, wp_print]
    refine wp.seq (clear_wp hK slot _) fun ok s₁ h => ?_
    obtain ⟨hsent, hanswer, hunits, hslots⟩ := h
    refine wp_ite (fun hfail => ?_) fun hok => ?_
    · rw [Bool.not_eq_true'] at hfail
      rw [hfail] at hslots
      exact ⟨.clear slot _ 2 hsent hunits hslots, hanswer⟩
    · rw [Bool.not_eq_true', Bool.not_eq_false] at hok
      rw [hok] at hslots
      exact ⟨.clear slot _ 0 hsent hunits hslots, hanswer⟩

/-- The end of a program whose disk call was granted. -/
theorem keepUnit_wp {call : DiskCall} {unit slot : Byte} {done : τ → List Byte} {s s₁ : Machine σ τ}
    (h : Sent slots call s true s₁) :
    wp (keepUnit e unit slot done) (fun code s' => Sends e call unit slot s s' code ∧
      slots s'.catalog = slots s.catalog ∧ s'.client.answer = s.client.answer) (fun _ => False) s₁ := by
  rw [keepUnit, wp_bind, setUnitSlot, wp_bind, wp_get]
  rcases hset : e.platform.setUnitSlot unit slot s₁.units with ⟨ok, units⟩
  rw [wp_bind, wp_set]
  rw [h.units] at hset
  have hgranted := h.granted.1 rfl
  have hunits : units = (e.platform.setUnitSlot unit slot s.units).2 := by rw [hset]
  refine wp_ite (fun hfail => ?_) fun hok => ?_
  · rw [Bool.not_eq_true'] at hfail
    refine ⟨⟨h.sent, Or.inl ⟨hgranted, hunits, ?_⟩⟩, h.slots, h.answer⟩
    rw [hset, hfail]
    rfl
  · rw [Bool.not_eq_true', Bool.not_eq_false] at hok
    refine ⟨⟨h.sent, Or.inl ⟨hgranted, hunits, ?_⟩⟩, h.slots, h.answer⟩
    rw [hset, hok]
    rfl

/-- The end of a program whose disk call was not granted: it only prints. -/
theorem Sent.failed {call : DiskCall} {unit slot : Byte} {s s₁ s' : Machine σ τ} (h : Sent slots call s false s₁)
    (hclient : s'.client = s₁.client) (hunits : s'.units = s₁.units) : Sends e call unit slot s s' 2 :=
  ⟨by rw [hclient, h.sent], Or.inr ⟨fun hgranted => Bool.noConfusion (h.granted.2 hgranted), hunits.trans h.units, rfl⟩⟩

/-- A disk call of a unit that exists is not rejected. -/
theorem unit_accepted {unit : Byte} (h : unit < maxUnits) : ¬ unit ≥ maxUnits := BitVec.not_le.2 h

theorem fumount_does (args : List (List Byte)) (s : Machine σ τ) :
    wp (fumount e args) (fun code s' => Does e slots s ((Line.fumount args).action e s.units) code s' ∧
      s'.client.answer = s.client.answer) (fun _ => False) s := by
  rw [fumount, wp_bind, wp_get, Line.action]
  cases hargs : fumountArgs e s.units args with
  | error text => exact ⟨.refused _ rfl rfl rfl, rfl⟩
  | ok p =>
    obtain ⟨c, unit⟩ := p
    have hunit := fumountArgs_lt hargs
    refine wp.seq (diskCall_wp slots (diskUnmount_returns e.diskErr unit)
      (fun c => diskUnmount_wp e.diskErr unit c (unit_accepted hunit)) s) fun ok s₁ h => ?_
    refine wp_ite (fun hfail => ?_) fun hok => ?_
    · rw [Bool.not_eq_true'] at hfail
      rw [hfail] at h
      exact ⟨.unmount unit _ 2 hunit (h.failed rfl rfl) h.slots, h.answer⟩
    · rw [Bool.not_eq_true', Bool.not_eq_false] at hok
      rw [hok] at h
      refine (keepUnit_wp h).mono (fun code s' h' => ?_) fun _ => id
      obtain ⟨hsends, hslots, hanswer⟩ := h'
      exact ⟨.unmount unit _ code hunit hsends hslots, hanswer⟩

theorem fboot_does (args : List (List Byte)) (s : Machine σ τ) :
    wp (fboot e args) (fun code s' => Does e slots s ((Line.fboot args).action e s.units) code s' ∧
      s'.client.answer = s.client.answer) (fun _ => False) s := by
  rw [fboot, wp_bind, wp_get, Line.action]
  cases hargs : fbootArgs e s.units args with
  | error text => exact ⟨.refused _ rfl rfl rfl, rfl⟩
  | ok unit =>
    have hunit := fbootArgs_lt hargs
    refine wp.seq (diskCall_wp slots (diskRestoreBoot_returns e.diskErr unit)
      (fun c => diskRestoreBoot_wp e.diskErr unit c (unit_accepted hunit)) s) fun ok s₁ h => ?_
    refine wp_ite (fun hfail => ?_) fun hok => ?_
    · rw [Bool.not_eq_true'] at hfail
      rw [hfail] at h
      exact ⟨.restore unit _ 2 hunit (h.failed rfl rfl) h.slots, h.answer⟩
    · rw [Bool.not_eq_true', Bool.not_eq_false] at hok
      rw [hok] at h
      refine (keepUnit_wp h).mono (fun code s' h' => ?_) fun _ => id
      obtain ⟨hsends, hslots, hanswer⟩ := h'
      exact ⟨.restore unit _ code hunit hsends hslots, hanswer⟩

theorem length_mountUri (uri : List Byte) : (mountUri uri).length ≤ mountUriMax :=
  ((List.takeWhile_prefix _).length_le).trans (List.length_take_le _ _)

theorem mount_accepted {unit : Byte} (hunit : unit < maxUnits) {uri : List Byte} (hne : uri ≠ []) (hshort : uri.length ≤ mountUriMax)
    (readonly : Byte) (hint : Word) : ¬ (DiskCall.mount unit uri readonly hint).Rejected := by
  have hpos := List.length_pos_of_ne_nil hne
  have hlen : (BitVec.ofNat 16 uri.length).toNat = uri.length := by
    rw [BitVec.toNat_ofNat, Nat.mod_eq_of_lt (lt_of_le_of_lt hshort (by decide))]
  rw [mountUriMax] at hshort
  rintro (hge | hzero | hlarge)
  · exact unit_accepted hunit hge
  · rw [hzero] at hlen
    have h0 : (0 : Word).toNat = 0 := rfl
    omega
  · rw [hlen, maxData] at hlarge
    omega

theorem fmount_does (hK : Keeps e.catalog slots) (args : List (List Byte)) (typed : List Byte) (s : Machine σ τ) :
    wp (fmount e args typed) (fun code s' => Does e slots s ((Line.fmount args typed).action e s.units) code s' ∧
      s'.client.answer = s.client.answer) (fun _ => False) s := by
  rw [fmount, wp_bind, wp_get, Line.action]
  rcases hargs : mountArgs e s.units args typed with ⟨printed, text | a⟩
  · exact ⟨.refused _ rfl rfl rfl, rfl⟩
  · have hunit : a.unit < maxUnits := mountArgs_lt (congrArg Prod.snd hargs)
    rw [wp_bind, wp_print]
    refine wp.seq (getMount_wp hK a.slot _) fun r s₁ h => ?_
    obtain ⟨hstill, hread⟩ := h
    obtain ⟨ok, mount⟩ := r
    have hsame : Still slots s s₁ := ⟨hstill.sent, hstill.answer, hstill.units, hstill.slots⟩
    refine wp_ite (fun hnone => ?_) fun himage => ?_
    · refine ⟨.noImage a _ ?_ hsame.sent hsame.units hsame.slots, hsame.answer⟩
      cases hok : ok with
      | false => exact Or.inl fun h => by simpa [hok] using hread.result.2 h
      | true =>
        refine Or.inr fun readOnly uri hslot => ?_
        cases henabled : mount.enabled with
        | false =>
          have hempty := hread.none hok henabled
          cases hempty.symm.trans hslot
        | true =>
          obtain ⟨readOnly', uri', hslot', huri⟩ := hread.image henabled
          cases hslot'.symm.trans hslot
          rw [← huri]
          simpa [hok, henabled] using hnone
    · simp only [Bool.not_eq_true', not_or, Bool.not_eq_false] at himage
      obtain ⟨hok, henabled, hne⟩ := himage
      have hreads := hread.result.1 hok
      obtain ⟨readOnly, uri, hslot, huri⟩ := hread.image henabled
      have hshort : mount.uri.length ≤ mountUriMax := huri ▸ length_mountUri uri
      refine wp.seq (diskCall_wp slots (fun c => diskMount_returns e.diskErr a.unit a.readOnly a.sectorSize c hshort)
        (fun c => diskMount_wp e.diskErr a.unit mount.uri a.readOnly a.sectorSize c
          (mount_accepted hunit hne hshort a.readOnly a.sectorSize)) s₁) fun ok s₂ h => ?_
      have hsent := hsame.sent_trans h
      rw [huri] at hsent hne
      refine wp_ite (fun hfail => ?_) fun hok => ?_
      · rw [Bool.not_eq_true'] at hfail
        rw [hfail] at hsent
        exact ⟨.mount a readOnly uri _ 2 hreads hslot hne hunit (hsent.failed rfl rfl) hsent.slots, hsent.answer⟩
      · rw [Bool.not_eq_true', Bool.not_eq_false] at hok
        rw [hok] at hsent
        refine (keepUnit_wp hsent).mono (fun code s' h' => ?_) fun _ => id
        obtain ⟨hsends, hslots, hanswer⟩ := h'
        exact ⟨.mount a readOnly uri _ code hreads hslot hne hunit hsends hslots, hanswer⟩

theorem line_does (hK : Keeps e.catalog slots) (line : Line) (s : Machine σ τ) :
    wp (line.main e) (fun code s' => Does e slots s (line.action e s.units) code s' ∧
      s'.client.answer = s.client.answer) (fun _ => False) s := by
  cases line with
  | fin args typed => exact fin_does hK args typed s
  | fout args typed => exact fout_does hK args typed s
  | fmount args typed => exact fmount_does hK args typed s
  | fumount args => exact fumount_does args s
  | fboot args => exact fboot_does args s

end Mains

end NioApps.Shell
