import Mathlib.Data.List.GetD
import NioApps.Proofs.HostCalls
import NioApps.Proofs.RequestFields
import NioApps.Proofs.Selected

/-! FHOST over a conforming host device: every command line comes to its end with the requests
of its actions, the replies say with which exit code, and where that is 0 the device holds
what was asked for and the output shows it. -/

namespace NioApps.Shell

open Abort Commands Service
open AppStore (ascii newline)

variable {σ τ : Type} {e : Setup σ τ} {l : Locale} {text : List (List Byte) → List Byte} {view : List Request → HostView}

/-- The program has only printed and called the device. -/
structure Grown (s : Machine σ τ) (out : List Byte) (s' : Machine σ τ) : Prop where
  out : s'.out = s.out ++ out
  answer : s'.client.answer = s.client.answer

theorem Grown.refl (s : Machine σ τ) : Grown s [] s := ⟨(List.append_nil _).symm, rfl⟩

theorem Grown.trans {s s' s'' : Machine σ τ} {out out' : List Byte} (h : Grown s out s') (h' : Grown s' out' s'') :
    Grown s (out ++ out') s'' where
  out := by rw [h'.out, h.out, List.append_assoc]
  answer := h'.answer.trans h.answer

theorem Grown.print {s s' : Machine σ τ} {out : List Byte} (h : Grown s out s') (bs : List Byte) :
    Grown s (out ++ bs) { s' with out := s'.out ++ bs } := h.trans ⟨rfl, rfl⟩

/-- A call of the device in a program. -/
theorem called_wp {α : Type} {m : Svc α} {q : Request} {P : α → Client → Prop} {s : Machine σ τ}
    (h : wp m (fun a c => P a c ∧ HostCalled q s.client c) (fun _ => False) s.client) :
    wp (service m) (fun a s' => P a s'.client ∧ s'.client.sent = s.client.sent ++ [q] ∧ Grown s [] s') (fun _ => False) s := by
  rw [wp_service]
  refine h.mono (fun a c h => ?_) fun _ => id
  exact ⟨h.1, h.2.sent, (List.append_nil _).symm, h.2.answer⟩

theorem unable_wp (what : String) (s : Machine σ τ) :
    wp (unable e l what) (fun _ s' => s'.client = s.client ∧ ∃ out, Grown s out s') (fun _ => False) s := by
  rw [unable, wp_bind, wp_get, wp_bind, wp_print, wp_print]
  exact ⟨rfl, _, ((Grown.refl s).print _).print _⟩

/-- A URI that is stored is an argument. -/
theorem hostMain_mem {t : Target} {args : List (List Byte)} {uri : List Byte} (h : hostMain t args = .setCurrent uri) :
    uri ∈ args := by
  rcases args with _ | ⟨arg, rest⟩
  · cases h
  · rw [hostMain] at h
    dsimp only at h
    split_ifs at h
    · rcases rest with _ | ⟨option, rest⟩
      · cases h
      · dsimp only at h
        split_ifs at h
    · cases h
      exact List.mem_cons_self

theorem length_promptUri (e : Setup σ τ) (input : List Byte) : (promptUri e input).length < 2 ^ 16 := by
  have hle : (promptUri e input).length ≤ (Console.fgets e.target mountUriMax input).1.length := (List.takeWhile_prefix _).length_le
  exact lt_of_le_of_lt (hle.trans (Console.length_fgets_le ..)) (by decide)

section Device

variable {answer : List Request → Reply} (hH : Hosts text view answer)
include hH

theorem Hosts.fits_reply {s : Machine σ τ} (hans : s.client.answer = answer) (q : Request) :
    (s.client.reply q).length.toNat ≤ maxData := by
  rw [Client.reply, hans]
  exact hH.fits _

/-- What `show_current` did: one request, and its reply shown if it came. -/
structure ViewShown (e : Setup σ τ) (view : List Request → HostView) (answer : List Request → Reply) (s : Machine σ τ) (ok : Bool)
    (s' : Machine σ τ) : Prop where
  sent : s'.client.sent = s.client.sent ++ [getRequest]
  result : ok = true ↔ (answer (s.client.sent ++ [getRequest])).result = 0
  out : ∃ out, Grown s out s' ∧
    (ok = true → out = currentText e (seen (answer (s.client.sent ++ [getRequest])) (view s.client.sent)))

theorem showCurrent_wp {s : Machine σ τ} (hans : s.client.answer = answer) :
    wp (showCurrent e l) (ViewShown e view answer s) (fun _ => False) s := by
  subst hans
  obtain ⟨-, hcur⟩ := hH.get s.client.sent
  rw [showCurrent]
  refine wp.seq (called_wp ((hostGetCurrent_wp (hH.fits _) hcur).mono (fun ok c h => ⟨h, h.called⟩) fun _ => id)) fun ok s₁ h => ?_
  obtain ⟨hread, hsent, hgrown⟩ := h
  have herror : s₁.client.lastDosError = (s.client.answer (s.client.sent ++ [getRequest])).result := hread.called.error
  have hresult := hread.result
  change ok = true ↔ (s.client.answer (s.client.sent ++ [getRequest])).result = 0 ∧
    (s.client.answer (s.client.sent ++ [getRequest])).status = 0 at hresult
  rw [wp_bind, wp_get]
  cases ok with
  | true =>
    obtain ⟨hhost, hpath⟩ := hread.read rfl
    obtain ⟨hr, hs⟩ := hresult.1 rfl
    have hseen : seen (s.client.answer (s.client.sent ++ [getRequest])) (view s.client.sent) = view s.client.sent := if_pos hs
    have hdone : ∀ {out s'}, s'.client = s₁.client → Grown s out s' → out = currentText e (view s.client.sent) →
        ViewShown e view s.client.answer s true s' := fun hclient hout htext =>
      ⟨hclient ▸ hsent, iff_of_true rfl hr, _, hout, fun _ => hseen.symm ▸ htext⟩
    refine wp_ite (fun hfail => absurd hfail (by decide)) fun _ => ?_
    dsimp only
    rw [hhost, hpath]
    refine wp_ite (fun hnone => ?_) fun hsome => ?_
    · exact hdone rfl ((hgrown.print _).print _) (if_pos hnone).symm
    · rw [wp_bind, wp_print]
      refine wp_ite (fun hp => ?_) fun hp => ?_
      · exact hdone rfl ((hgrown.print _).print _) (by rw [currentText, if_neg hsome, if_pos hp]; rfl)
      · exact hdone rfl ((hgrown.print _).print _) (by rw [currentText, if_neg hsome, if_neg hp]; rfl)
  | false =>
    refine wp_ite (fun _ => ?_) fun hok => absurd rfl hok
    refine wp_ite (fun hne => ?_) fun h0 => ?_
    · refine wp.seq (unable_wp "read current host" s₁) fun _ s₂ h => ?_
      obtain ⟨hclient, out, hout⟩ := h
      refine ⟨hclient ▸ hsent, iff_of_false (by decide) fun hr => hne (herror.trans hr), _, hgrown.trans hout, nofun⟩
    · have hr := herror.symm.trans (not_not.1 h0)
      have hs : ¬ (s.client.answer (s.client.sent ++ [getRequest])).status = 0 := fun hs => absurd (hresult.2 ⟨hr, hs⟩) (by decide)
      refine ⟨hsent, iff_of_true rfl hr, _, (hgrown.print _).print _, fun _ => ?_⟩
      rw [seen, if_neg hs, currentText, if_pos rfl]
      rfl

omit hH in
/-- A call that the device may grant. -/
theorem moves_wp {m : Svc Bool} {q : Request} {s : Machine σ τ} (hans : s.client.answer = answer)
    (hm : wp m (fun ok c => (ok = true ↔ Granted (s.client.reply q)) ∧ HostCalled q s.client c) (fun _ => False) s.client) :
    wp (service m) (fun ok s' => (ok = true ↔ Granted (answer (s.client.sent ++ [q]))) ∧ s'.client.sent = s.client.sent ++ [q] ∧
      Grown s [] s') (fun _ => False) s := by
  subst hans
  exact called_wp hm

omit hH in
/-- An action that ended with 2 before anything could be shown. -/
theorem HostDoes.of_failed {qs qs' : List Request} {act : HostAction} {P : HostView → Prop} (out : List Byte)
    (hexchange : Exchange answer qs act 2 qs') (hmoves : Moves (answer qs') (view qs) (view qs') P) (hgranted : ¬ Granted (answer qs'))
    (hP : P (view qs') → Effect (view qs) (view qs') act) : HostDoes e text view answer qs act 2 out qs' :=
  ⟨hexchange, nofun, (hmoves.2 hgranted).imp_right hP, nofun⟩

/-- The end of FHOST after a call that changes the current host. -/
theorem shown_wp {s s₁ : Machine σ τ} {act : HostAction} {out₁ : List Byte} (hans : s.client.answer = answer) (h₁ : Grown s out₁ s₁)
    (hexchange : Exchange answer s.client.sent act (showCode answer s₁.client.sent) (s₁.client.sent ++ [getRequest]))
    (heffect : Effect (view s.client.sent) (view s₁.client.sent) act)
    (hprints : ∀ qs out, currentText e (seen (answer qs) (view qs)) <:+: out → HostPrints e text view answer qs out act)
    {f : Bool → Program σ τ ℕ} (hdone : f true = pure 0)
    (hfailed : ∀ s₂, wp (f false) (fun code s' => code = 2 ∧ s'.client = s₂.client ∧ ∃ out, Grown s₂ out s') (fun _ => False) s₂) :
    wp (showCurrent e l >>= f)
      (fun code s' => ∃ out, Grown s out s' ∧ HostDoes e text view answer s.client.sent act code out s'.client.sent)
      (fun _ => False) s₁ := by
  refine wp.seq (showCurrent_wp hH (h₁.answer.trans hans)) fun ok s₂ h => ?_
  obtain ⟨hsent, hresult, out, hout, htext⟩ := h
  have hview : view s₂.client.sent = view s₁.client.sent := by
    rw [hsent]
    exact (hH.get _).1
  rw [← hsent] at hexchange hresult htext
  rw [← hview] at heffect htext
  cases ok with
  | true =>
    rw [hdone]
    rw [showCode, ← hsent, if_pos (hresult.1 rfl)] at hexchange
    refine ⟨_, h₁.trans hout, hexchange, fun _ => heffect, Or.inr heffect, fun _ => hprints _ _ ?_⟩
    rw [htext rfl]
    exact (List.suffix_append _ _).isInfix
  | false =>
    refine (hfailed s₂).mono (fun code s' h => ?_) fun _ => id
    obtain ⟨rfl, hclient, out', hout'⟩ := h
    rw [showCode, ← hsent, if_neg fun hr => Bool.noConfusion (hresult.2 hr)] at hexchange
    rw [hclient]
    exact ⟨_, (h₁.trans hout).trans hout', hexchange, nofun, Or.inr heffect, nofun⟩

/-- The action of showing the current host. -/
theorem ViewShown.does {s s' : Machine σ τ} {ok : Bool} (h : ViewShown e view answer s ok s') :
    ∃ out, Grown s out s' ∧ ∀ bs, HostDoes e text view answer s.client.sent .showCurrent (if ok then 0 else 2) (out ++ bs)
      s'.client.sent := by
  obtain ⟨hsent, hresult, out, hout, htext⟩ := h
  have hview : view s'.client.sent = view s.client.sent := by
    rw [hsent]
    exact (hH.get _).1
  have hexchange : Exchange answer s.client.sent .showCurrent (if ok then 0 else 2) s'.client.sent := by
    have hcode : (if ok then 0 else 2) = showCode answer s.client.sent := if_congr hresult rfl rfl
    rw [hcode, hsent]
    exact .showCurrent
  refine ⟨out, hout, fun bs => ⟨hexchange, fun _ => hview, Or.inl hview, fun hcode => ?_⟩⟩
  cases ok with
  | true =>
    rw [htext rfl, ← hsent, ← hview]
    exact (List.prefix_append _ _).isInfix
  | false => cases hcode

theorem storeHost_wp {s : Machine σ τ} {uri : List Byte} (hans : s.client.answer = answer) (huri : uri.length < 2 ^ 16) :
    wp (storeHost e l uri) (fun code s' => ∃ out, Grown s out s' ∧
      HostDoes e text view answer s.client.sent (.setCurrent uri) code out s'.client.sent) (fun _ => False) s := by
  rw [storeHost]
  by_cases hlong : 509 < uri.length
  · have hlost : wp (service (hostSetCurrent uri))
        (fun ok s' => ok = false ∧ s'.client.sent = s.client.sent ∧ Grown s [] s') (fun _ => False) s := by
      refine wp_service.2 ((hostSetCurrent_long hlong huri).mono (fun ok c h => ?_) fun _ => id)
      exact ⟨h.1, h.2.1, (List.append_nil _).symm, h.2.2⟩
    refine wp.seq hlost fun ok s₁ h => ?_
    obtain ⟨hfail, hsent, hgrown⟩ := h
    refine wp_ite (fun _ => ?_) fun hok => absurd hfail (by simpa using hok)
    refine wp.seq (unable_wp "store current host" s₁) fun _ s₂ h => ?_
    obtain ⟨hclient, out, hout⟩ := h
    refine ⟨_, hgrown.trans hout, ?_⟩
    rw [hclient, hsent]
    exact ⟨.long uri hlong, nofun, Or.inl rfl, nofun⟩
  · have hfits := Nat.not_lt.1 hlong
    have hmoves := hH.set s.client.sent uri
    refine wp.seq (moves_wp hans (hostSetCurrent_wp hfits (hH.fits_reply hans _))) fun ok s₁ h => ?_
    obtain ⟨hgranted, hsent, hgrown⟩ := h
    rw [← hsent] at hgranted hmoves
    refine wp_ite (fun hfail => ?_) fun hok => ?_
    · refine wp.seq (unable_wp "store current host" s₁) fun _ s₂ h => ?_
      obtain ⟨hclient, out, hout⟩ := h
      have hrefused : ¬ Granted (answer s₁.client.sent) := fun hg => by simp [hgranted.2 hg] at hfail
      refine ⟨_, hgrown.trans hout, ?_⟩
      rw [hclient]
      exact HostDoes.of_failed _ (hsent ▸ .unstored uri hfits (hsent ▸ hrefused)) hmoves hrefused id
    · have hg := hgranted.1 (by simpa using hok)
      have hexchange : Exchange answer s.client.sent (.setCurrent uri) (showCode answer s₁.client.sent)
          (s₁.client.sent ++ [getRequest]) := hsent ▸ .stored uri hfits (hsent ▸ hg)
      refine shown_wp hH hans hgrown hexchange (hmoves.1 hg) (fun _ _ h => h) rfl fun s₂ => ?_
      exact ⟨rfl, rfl, _, (Grown.refl s₂).print _⟩

theorem listHistory_wp {s : Machine σ τ} (hans : s.client.answer = answer) (args : List (List Byte)) (input : List Byte)
    (hmain : hostMain e.target args = .listHistory) :
    wp (fhost e l args input) (fun code s' => ∃ out, Grown s out s' ∧
      HostDoes e text view answer s.client.sent .listHistory code out s'.client.sent) (fun _ => False) s := by
  subst hans
  rw [fhost, hmain]
  obtain ⟨hview, htext⟩ := hH.list s.client.sent
  refine wp.seq (called_wp ((hostListHistory_wp (hH.fits _) htext).mono (fun o c h => ⟨h, h.called⟩) fun _ => id)) fun o s₁ h => ?_
  obtain ⟨hread, hsent, hgrown⟩ := h
  have hresult : o = if (s.client.answer s₁.client.sent).result = 0 ∧ (s.client.answer s₁.client.sent).status = 0 then
      some (text (view s.client.sent).history) else none := by
    rw [hsent]
    exact hread.result
  rw [← hsent] at hview
  have hexchange : Exchange s.client.answer s.client.sent .listHistory 0 s₁.client.sent := hsent ▸ .list
  have hdone : ∀ {out}, HostPrints e text view s.client.answer s₁.client.sent out .listHistory →
      HostDoes e text view s.client.answer s.client.sent .listHistory 0 out s₁.client.sent := fun hprints =>
    ⟨hexchange, fun _ => hview, Or.inl hview, fun _ => hprints⟩
  cases o with
  | none =>
    have hnone : ¬ ((s.client.answer s₁.client.sent).result = 0 ∧ (s.client.answer s₁.client.sent).status = 0) := fun h => by
      rw [if_pos h] at hresult
      cases hresult
    refine ⟨_, hgrown.print _, hdone ?_⟩
    rw [HostPrints, if_neg fun h => hnone ⟨h.1, h.2.1⟩]
    rfl
  | some t =>
    obtain ⟨hread', rfl⟩ : ((s.client.answer s₁.client.sent).result = 0 ∧ (s.client.answer s₁.client.sent).status = 0) ∧
        t = text (view s.client.sent).history := by
      split_ifs at hresult with h
      exact ⟨h, Option.some.inj hresult⟩
    dsimp only
    rw [cstr_eq (hread.plain rfl)]
    refine wp_ite (fun hnil => ?_) fun hnil => ?_
    · refine ⟨_, hgrown.print _, hdone ?_⟩
      rw [HostPrints, if_neg fun h => h.2.2 (hview ▸ hnil)]
      rfl
    · refine ⟨_, hgrown.print _, hdone ?_⟩
      rw [HostPrints, if_pos ⟨hread'.1, hread'.2, hview ▸ hnil⟩, hview]
      rfl

theorem deleteHistory_wp {s : Machine σ τ} (hans : s.client.answer = answer) (args : List (List Byte)) (input : List Byte) {index : Byte}
    (hmain : hostMain e.target args = .deleteHistory index) :
    wp (fhost e l args input) (fun code s' => ∃ out, Grown s out s' ∧
      HostDoes e text view answer s.client.sent (.deleteHistory index) code out s'.client.sent) (fun _ => False) s := by
  have hmoves := hH.delete s.client.sent index
  rw [fhost, hmain]
  refine wp.seq (moves_wp hans (hostIndexCommand_wp hostDeleteHistoryCommand index (hH.fits_reply hans _))) fun ok s₁ h => ?_
  obtain ⟨hgranted, hsent, hgrown⟩ := h
  rw [← hsent] at hgranted hmoves
  refine wp_ite (fun hfail => ?_) fun hok => ?_
  · refine wp.seq (unable_wp "delete host history entry" s₁) fun _ s₂ h => ?_
    obtain ⟨hclient, out, hout⟩ := h
    have hrefused : ¬ Granted (answer s₁.client.sent) := fun hg => by simp [hgranted.2 hg] at hfail
    refine ⟨_, hgrown.trans hout, ?_⟩
    rw [hclient]
    exact HostDoes.of_failed _ (hsent ▸ .undeleted index (hsent ▸ hrefused)) hmoves hrefused id
  · have hg := hgranted.1 (by simpa using hok)
    exact ⟨_, hgrown, hsent ▸ .deleted index (hsent ▸ hg), fun _ => hmoves.1 hg, Or.inr (hmoves.1 hg), fun _ => rfl⟩

theorem selectHistory_wp {s : Machine σ τ} (hans : s.client.answer = answer) (args : List (List Byte)) (input : List Byte) {index : Byte}
    (hmain : hostMain e.target args = .selectHistory index) :
    wp (fhost e l args input) (fun code s' => ∃ out, Grown s out s' ∧
      HostDoes e text view answer s.client.sent (.selectHistory index) code out s'.client.sent) (fun _ => False) s := by
  have hmoves := hH.select s.client.sent index
  rw [fhost, hmain]
  refine wp.seq (moves_wp hans (hostIndexCommand_wp hostSelectHistoryCommand index (hH.fits_reply hans _))) fun ok s₁ h => ?_
  obtain ⟨hgranted, hsent, hgrown⟩ := h
  rw [← hsent] at hgranted hmoves
  refine wp_ite (fun hfail => ?_) fun hok => ?_
  · refine wp.seq (unable_wp "select host history entry" s₁) fun _ s₂ h => ?_
    obtain ⟨hclient, out, hout⟩ := h
    have hrefused : ¬ Granted (answer s₁.client.sent) := fun hg => by simp [hgranted.2 hg] at hfail
    refine ⟨_, hgrown.trans hout, ?_⟩
    rw [hclient]
    exact HostDoes.of_failed _ (hsent ▸ .unselected index (hsent ▸ hrefused)) hmoves hrefused id
  · have hg := hgranted.1 (by simpa using hok)
    have hexchange : Exchange answer s.client.sent (.selectHistory index) (showCode answer s₁.client.sent)
        (s₁.client.sent ++ [getRequest]) := hsent ▸ .selected index (hsent ▸ hg)
    refine shown_wp hH hans hgrown hexchange (hmoves.1 hg) (fun _ _ h => h) rfl fun s₂ => ?_
    exact ⟨rfl, rfl, _, Grown.refl s₂⟩

theorem fhost_wp {args : List (List Byte)} (hargs : ∀ arg ∈ args, arg.length < 2 ^ 16) (input : List Byte) {s : Machine σ τ}
    (hans : s.client.answer = answer) :
    wp (fhost e l args input) (fun code s' => ∃ out, Grown s out s' ∧
      HostLine e text view answer s.client.sent (hostActions e args input) code out s'.client.sent) (fun _ => False) s := by
  rw [hostActions]
  cases hmain : hostMain e.target args with
  | usage =>
    rw [fhost, hmain]
    exact ⟨_, ((Grown.refl s).print _).print _, .last ⟨.usage, nofun, Or.inl rfl, fun _ => trivial⟩⟩
  | listHistory => exact (listHistory_wp hH hans args input hmain).mono (fun _ _ ⟨out, h, hdoes⟩ => ⟨out, h, .last hdoes⟩) fun _ => id
  | deleteHistory index =>
    exact (deleteHistory_wp hH hans args input hmain).mono (fun _ _ ⟨out, h, hdoes⟩ => ⟨out, h, .last hdoes⟩) fun _ => id
  | selectHistory index =>
    exact (selectHistory_wp hH hans args input hmain).mono (fun _ _ ⟨out, h, hdoes⟩ => ⟨out, h, .last hdoes⟩) fun _ => id
  | showCurrent =>
    rw [fhost, hmain]
    dsimp only
    refine wp.seq (showCurrent_wp hH hans) fun ok s₁ h => ?_
    obtain ⟨out, hout, hdoes⟩ := h.does hH
    refine wp_ite (fun hfail => ?_) fun hok => ?_
    · rw [Bool.not_eq_true'] at hfail
      subst hfail
      have hstopped := hdoes []
      rw [List.append_nil] at hstopped
      exact ⟨out, hout, .stop hstopped (by decide)⟩
    · rw [Bool.not_eq_true', Bool.not_eq_false] at hok
      subst hok
      refine wp_ite (fun hatari => ?_) fun hother => ?_
      · rw [wp_bind, wp_print]
        refine wp_ite (fun hblank => ?_) fun htyped => ?_
        · rw [if_neg fun h => h.2 hblank]
          exact ⟨_, hout.print _, .last (hdoes _)⟩
        · rw [if_pos ⟨hatari, htyped⟩]
          have hprompted := hout.print (ascii "URI (blank=keep): ")
          refine (storeHost_wp hH (hprompted.answer.trans hans) (length_promptUri e input)).mono (fun code s' h => ?_) fun _ => id
          obtain ⟨out', hout', hstored⟩ := h
          have hshown := hdoes []
          rw [List.append_nil] at hshown
          exact ⟨_, hprompted.trans hout', .next hshown (.last hstored)⟩
      · rw [if_neg fun h => hother h.1]
        have hshown := hdoes []
        rw [List.append_nil] at hshown
        exact ⟨_, hout, .last hshown⟩
  | setCurrent uri =>
    rw [fhost, hmain]
    exact (storeHost_wp hH hans (hargs uri (hostMain_mem hmain))).mono (fun _ _ ⟨out, h, hdoes⟩ => ⟨out, h, .last hdoes⟩) fun _ => id

end Device

theorem fhost_refines (e : Setup σ τ) (l : Locale) (text : List (List Byte) → List Byte) (view : List Request → HostView)
    (answer : List Request → Reply) (hH : Hosts text view answer) (lines : List (List (List Byte) × List Byte))
    (hlines : ∀ line ∈ lines, ∀ arg ∈ line.1, arg.length < 2 ^ 16) (s : Machine σ τ) (hs : s.client.answer = answer) :
    ∃ codes s' out, fhostSession e l lines s = some (codes, s') ∧ s'.out = s.out ++ out ∧
      HostCourse e text view answer s.client.sent (lines.map fun line => hostActions e line.1 line.2) codes out
        s'.client.sent := by
  induction lines generalizing s with
  | nil => exact ⟨[], s, [], rfl, (List.append_nil _).symm, .nil _⟩
  | cons line lines ih =>
    obtain ⟨args, input⟩ := line
    have hargs := hlines (args, input) List.mem_cons_self
    obtain ⟨code, s₁, hrun, out₁, hgrown, hdoes⟩ := (fhost_wp (e := e) (l := l) (s := fresh e s) hH hargs input hs).returns
    have hs₁ : s₁.client.answer = answer := hgrown.answer.trans hs
    obtain ⟨codes, s', out, hsession, hout, hcourse⟩ := ih (fun line h => hlines line (List.mem_cons_of_mem _ h)) s₁ hs₁
    refine ⟨code :: codes, s', out₁ ++ out, ?_, ?_, .cons hdoes hcourse⟩
    · rw [fhostSession, hrun]
      dsimp only
      rw [hsession]
      rfl
    · rw [hout, hgrown.out, List.append_assoc]
      rfl

/-! ### A device with one host of before -/

def Holds (bs : List Byte) : Prop := bs.length ≤ 200 ∧ 0 ∉ bs

instance (bs : List Byte) : Decidable (Holds bs) := inferInstanceAs (Decidable (_ ∧ _))

/-- Whether a request is granted, and what the device holds afterwards. -/
def deskStep (v : HostView) (q : Request) : Bool × HostView :=
  if q.command = hostSetCurrentCommand then
    if Holds (q.bytes.drop 3) then (true, ⟨q.bytes.drop 3, [], [q.bytes.drop 3]⟩) else (false, v)
  else if q.command = hostSelectHistoryCommand then
    match v.history[(q.bytes.getD 1 0).toNat]? with
    | some host => (true, { v with host })
    | none => (false, v)
  else if q.command = hostDeleteHistoryCommand then
    if (q.bytes.getD 1 0).toNat < v.history.length then
      (true, { v with history := v.history.eraseIdx (q.bytes.getD 1 0).toNat })
    else (false, v)
  else (false, v)

def deskView (qs : List Request) : HostView := qs.foldl (fun v q => (deskStep v q).2) ⟨[], [], []⟩

def refusal : Reply := ⟨0, 2, 0, fun _ => 0⟩

def deskReply (v : HostView) (q : Request) : Reply :=
  if q.command = hostGetCurrentCommand then replyBytes ([1] ++ u16le (BitVec.ofNat 16 v.host.length) ++ [0, 0] ++ v.host)
  else if (deskStep v q).1 then replyBytes [1] else refusal

def deskAnswer (qs : List Request) : Reply :=
  match qs.getLast? with
  | none => refusal
  | some q => deskReply (deskView qs.dropLast) q

theorem deskView_concat (qs : List Request) (q : Request) : deskView (qs ++ [q]) = (deskStep (deskView qs) q).2 := by
  rw [deskView, List.foldl_append]
  rfl

theorem deskAnswer_concat (qs : List Request) (q : Request) : deskAnswer (qs ++ [q]) = deskReply (deskView qs) q := by
  rw [deskAnswer, List.getLast?_concat, List.dropLast_concat]

/-- Every host that the device holds fits into a reply. -/
def Kept (v : HostView) : Prop := Holds v.host ∧ v.path = [] ∧ ∀ host ∈ v.history, Holds host

theorem deskStep_kept {v : HostView} (h : Kept v) (q : Request) : Kept (deskStep v q).2 := by
  obtain ⟨hhost, hpath, hhistory⟩ := h
  rw [deskStep]
  split_ifs with hset hholds hselect hdelete hindex
  · refine ⟨hholds, rfl, fun host hmem => ?_⟩
    rw [List.mem_singleton.1 hmem]
    exact hholds
  · exact ⟨hhost, hpath, hhistory⟩
  · cases hget : v.history[(q.bytes.getD 1 0).toNat]? with
    | none => exact ⟨hhost, hpath, hhistory⟩
    | some host => exact ⟨hhistory host (List.mem_of_getElem? hget), hpath, hhistory⟩
  · exact ⟨hhost, hpath, fun host hmem => hhistory host (List.mem_of_mem_eraseIdx hmem)⟩
  · exact ⟨hhost, hpath, hhistory⟩
  · exact ⟨hhost, hpath, hhistory⟩

theorem deskView_kept (qs : List Request) : Kept (deskView qs) := by
  induction qs using List.reverseRecOn with
  | nil => exact ⟨by decide, rfl, nofun⟩
  | append_singleton qs q ih => exact deskView_concat qs q ▸ deskStep_kept ih q

theorem not_granted_refusal : ¬ Granted refusal := fun h => absurd h.2.1 (by decide)

theorem length_current {bs : List Byte} (h : bs.length ≤ 200) :
    (replyBytes ([1] ++ u16le (BitVec.ofNat 16 bs.length) ++ [0, 0] ++ bs)).length.toNat = 5 + bs.length := by
  rw [replyBytes, BitVec.toNat_ofNat]
  simp only [u16le, List.length_append, List.length_cons, List.length_nil]
  omega

/-- What the device does with a request that is none of the two that only read. -/
theorem desk_moves (qs : List Request) {q : Request} {P : HostView → Prop} (hq : q.command ≠ hostGetCurrentCommand)
    (hP : (deskStep (deskView qs) q).1 = true → P (deskStep (deskView qs) q).2)
    (hsame : (deskStep (deskView qs) q).1 = false → (deskStep (deskView qs) q).2 = deskView qs) :
    Moves (deskAnswer (qs ++ [q])) (deskView qs) (deskView (qs ++ [q])) P := by
  rw [deskAnswer_concat, deskView_concat, deskReply, if_neg hq]
  cases hstep : (deskStep (deskView qs) q).1 with
  | true => exact ⟨fun _ => hP hstep, fun _ => Or.inr (hP hstep)⟩
  | false => exact ⟨fun hg => absurd hg not_granted_refusal, fun _ => Or.inl (hsame hstep)⟩

theorem deskReply_current (v : HostView) (h : Kept v) : IsCurrent (deskReply v getRequest) v := by
  obtain ⟨⟨hlen, hnul⟩, hpath, -⟩ := h
  have hreply : deskReply v getRequest = replyBytes ([1] ++ u16le (BitVec.ofNat 16 v.host.length) ++ [0, 0] ++ v.host) := if_pos rfl
  have hhost : slice (deskReply v getRequest).data 5 v.host.length = v.host := by
    rw [hreply]
    refine List.ext_getElem (length_slice ..) fun i hi hi' => ?_
    rw [getElem_slice]
    change ([1] ++ u16le (BitVec.ofNat 16 v.host.length) ++ [0, 0] ++ v.host).getD (5 + i) 0 = _
    have hindex : 5 + i - ([1] ++ u16le (BitVec.ofNat 16 v.host.length) ++ [0, 0]).length = i := Nat.add_sub_cancel_left 5 i
    rw [List.getD_append_right _ _ _ _ (Nat.le_add_right 5 i), hindex, List.getElem_eq_getD]
  have hhostLen : (BitVec.ofNat 16 v.host.length).toNat = v.host.length := by
    rw [BitVec.toNat_ofNat]
    omega
  refine ⟨?_, ?_, ?_, ?_, hhost, ?_, hnul, ?_⟩
  · rw [hreply]
    rfl
  · rw [hreply]
    exact (le_u16le _).trans hhostLen
  · rw [hreply, hpath]
    rfl
  · rw [hreply, length_current hlen, hpath]
    rfl
  · rw [hpath]
    rfl
  · rw [hpath]
    exact List.not_mem_nil

theorem desk_hosts : Hosts List.flatten deskView deskAnswer where
  fits qs := by
    rcases List.eq_nil_or_concat qs with rfl | ⟨qs, q, rfl⟩
    · decide
    · rw [List.concat_eq_append, deskAnswer_concat, deskReply]
      split_ifs
      · rw [length_current (deskView_kept qs).1.1, maxData]
        have := (deskView_kept qs).1.1
        omega
      · decide
      · decide
  get qs := by
    rw [deskAnswer_concat, deskView_concat]
    exact ⟨rfl, fun _ _ => deskReply_current _ (deskView_kept qs)⟩
  list qs := by
    have hreply : deskReply (deskView qs) historyRequest = refusal := rfl
    rw [deskAnswer_concat, deskView_concat, hreply]
    exact ⟨rfl, fun _ hs => absurd hs (by decide)⟩
  set qs uri := by
    have hstep : deskStep (deskView qs) (setRequest uri) =
        if Holds uri then (true, ⟨uri, [], [uri]⟩) else (false, deskView qs) := rfl
    refine desk_moves qs (show hostSetCurrentCommand ≠ _ by decide) (fun h => ?_) fun h => ?_
    · rw [hstep] at h ⊢
      split_ifs at h ⊢
      rfl
    · rw [hstep] at h ⊢
      split_ifs at h ⊢
      rfl
  select qs index := by
    have hstep : deskStep (deskView qs) (hostRequest hostSelectHistoryCommand [index]) =
        match (deskView qs).history[index.toNat]? with
        | some host => (true, { deskView qs with host })
        | none => (false, deskView qs) := rfl
    refine desk_moves qs (show hostSelectHistoryCommand ≠ _ by decide) (fun h => ?_) fun h => ?_
    · rw [hstep] at h ⊢
      cases hget : (deskView qs).history[index.toNat]? with
      | none =>
        rw [hget] at h
        cases h
      | some host => rfl
    · rw [hstep] at h ⊢
      cases hget : (deskView qs).history[index.toNat]? with
      | none => rfl
      | some host =>
        rw [hget] at h
        cases h
  delete qs index := by
    have hstep : deskStep (deskView qs) (hostRequest hostDeleteHistoryCommand [index]) =
        if index.toNat < (deskView qs).history.length then
          (true, { deskView qs with history := (deskView qs).history.eraseIdx index.toNat })
        else (false, deskView qs) := rfl
    refine desk_moves qs (show hostDeleteHistoryCommand ≠ _ by decide) (fun h => ?_) fun h => ?_
    · rw [hstep] at h ⊢
      split_ifs at h ⊢ with hindex
      exact ⟨hindex, rfl⟩
    · rw [hstep] at h ⊢
      split_ifs at h ⊢
      rfl

/-- `FHOST TNFS:A`, `FHOST`, `FHOST 0`, `FHOST 0 D` and `FHOST 0`. -/
def hostEvening : List (List (List Byte) × List Byte) :=
  [([ascii "TNFS:A"], []), ([], []), ([ascii "0"], []), ([ascii "0", ascii "D"], []), ([ascii "0"], [])]

def atDesk : Machine (Byte → Bool × List Byte) Units := { powerOn with client := Client.start linuxSetup.diskErr deskAnswer }

/-- At the end the host is still set, and the history is empty. -/
theorem fhost_refines_evening : ∃ s' out,
    fhostSession linuxSetup ⟨fun _ => none, none, [], []⟩ hostEvening atDesk = some ([0, 0, 0, 0, 2], s') ∧ s'.out = [] ++ out ∧
      HostCourse linuxSetup List.flatten deskView deskAnswer []
        [[.setCurrent (ascii "TNFS:A")], [.showCurrent], [.selectHistory 0], [.deleteHistory 0], [.selectHistory 0]]
        [0, 0, 0, 0, 2] out s'.client.sent ∧ deskView s'.client.sent = ⟨ascii "TNFS:A", [], []⟩ := by
  obtain ⟨codes, s', out, hsession, hout, hcourse⟩ := fhost_refines linuxSetup ⟨fun _ => none, none, [], []⟩ List.flatten deskView
    deskAnswer desk_hosts hostEvening (by decide) atDesk rfl
  obtain ⟨rfl, rfl⟩ := Prod.mk.inj (Option.some.inj hsession)
  exact ⟨_, out, rfl, hout, hcourse, rfl⟩

end NioApps.Shell
