import NioApps.Spec.Drive

/-! The inhibition of a handler over runs of FMOUNT and FUMOUNT: never nested, and left
behind only on a parked handler. -/

namespace NioApps.Amiga

open Abort

variable {Image : Type}

/-! ### The unit -/

namespace Drive

variable {d d' : Drive Image}

@[simp] theorem mapHandler_environ (f : Handler → Option Handler) :
    (d.mapHandler f).node.map DosNode.environ = d.node.map DosNode.environ := by
  rw [mapHandler, Option.map_map]
  rfl

@[simp] theorem mapHandler_handler (f : Handler → Option Handler) : (d.mapHandler f).handler = d.handler.bind f := by
  cases hn : d.node <;> simp [mapHandler, handler, hn]

theorem depth_of_none (h : d.handler = none) : d.depth = 0 := by rw [depth, h]; rfl

theorem depth_of_some {h : Handler} (hh : d.handler = some h) : d.depth = h.depth := by rw [depth, hh]; rfl

/-- A handler that was free is inhibited once. -/
theorem inhibit_free (hact : d.handler.isSome) (h0 : d.depth = 0) :
    (∃ h, d.inhibit.handler = some h) ∧ d.inhibit.depth = 1 ∧ d.inhibit.deepest = max d.deepest 1 := by
  obtain ⟨h, hh⟩ := Option.isSome_iff_exists.1 hact
  have hinhibit : d.inhibit.handler = some { h with depth := h.depth + 1 } :=
    (mapHandler_handler _).trans (by rw [hh]; rfl)
  rw [depth_of_some hh] at h0
  refine ⟨⟨_, hinhibit⟩, ?_, ?_⟩
  · rw [depth_of_some hinhibit, h0]
  · rw [inhibit, depth_of_some hh, h0]

theorem uninhibit_depth : d.uninhibit.depth = d.depth - 1 := by
  cases hh : d.handler with
  | none => rw [depth_of_none (d := d.uninhibit) (by simp [uninhibit, hh]), depth_of_none hh]
  | some h =>
    have huninhibit : d.uninhibit.handler = some { h with depth := h.depth - 1 } := by simp [uninhibit, hh]
    rw [depth_of_some huninhibit, depth_of_some hh]

theorem node_of_environ {o : Option DosEnvec} (h : d.node.map DosNode.environ = o) (ho : o = none) : d.node = none := by
  rw [ho] at h
  exact Option.map_eq_none_iff.1 h

/-- A program that failed. -/
theorem Disciplined.failed {P : Prop} {rc : ℕ} (h : d.Disciplined) (hrc : rc ≠ 0) : d.Disciplined ∧ (rc = 0 → P) :=
  ⟨h, fun h0 => absurd h0 hrc⟩

end Drive

theorem ofNode_active (d : Drive Image) : (NodeSnapshot.ofNode d.node).active = d.handler.isSome := by
  rw [Drive.handler]
  cases d.node <;> rfl

/-- What packets other than ACTION_INHIBIT and the passing of time leave alone. -/
structure Waits (d d' : Drive Image) : Prop where
  media : d'.media = d.media
  deepest : d'.deepest = d.deepest
  environ : d'.node.map DosNode.environ = d.node.map DosNode.environ
  handler : ∀ h', d'.handler = some h' → ∃ h, d.handler = some h ∧ h.depth = h'.depth

instance : IsPreorder (Drive Image) Waits where
  refl _ := ⟨rfl, rfl, rfl, fun h hh => ⟨h, hh, rfl⟩⟩
  trans a b c hab hbc := ⟨hbc.media.trans hab.media, hbc.deepest.trans hab.deepest, hbc.environ.trans hab.environ, by
    intro h'' hh''
    obtain ⟨h', hh', hdepth'⟩ := hbc.handler h'' hh''
    obtain ⟨h, hh, hdepth⟩ := hab.handler h' hh'
    exact ⟨h, hh, hdepth.trans hdepth'⟩⟩

theorem Waits.disciplined {d d' : Drive Image} (h : Waits d d') (hd : d.Disciplined) : d'.Disciplined := by
  refine ⟨h.deepest ▸ hd.shallow, ?_⟩
  cases hh' : d'.handler with
  | none => exact .inl (Drive.depth_of_none hh')
  | some h' =>
    obtain ⟨h₀, hh, hdepth⟩ := h.handler h' hh'
    have heq : d'.depth = d.depth := by rw [Drive.depth_of_some hh', Drive.depth_of_some hh, hdepth]
    rcases hd.depth with h0 | ⟨-, h1, hnone⟩
    · exact .inl (heq.trans h0)
    · exact .inr ⟨⟨h', hh'⟩, heq.trans h1, h.media.trans hnone⟩

theorem mapHandler_waits {f : Handler → Option Handler} (hf : ∀ h h', f h = some h' → h'.depth = h.depth) (d : Drive Image) :
    Waits d (d.mapHandler f) where
  media := rfl
  deepest := rfl
  environ := Drive.mapHandler_environ f
  handler h' hh' := by
    rw [Drive.mapHandler_handler] at hh'
    obtain ⟨h, hh, hfh⟩ := Option.bind_eq_some_iff.1 hh'
    exact ⟨h, hh, (hf h h' hfh).symm⟩

theorem told_depth (exits : Option ℕ) (h h' : Handler) (ht : h.told exits = some h') : h'.depth = h.depth := by
  cases exits with
  | none =>
    cases ht
    rfl
  | some n =>
    cases n with
    | zero => cases ht
    | succ n =>
      cases ht
      rfl

theorem tick_depth (h h' : Handler) (ht : h.tick = some h') : h'.depth = h.depth := by
  unfold Handler.tick at ht
  split at ht
  · cases ht
    rfl
  · cases ht
  · cases ht
    rfl

theorem delay_waits : Keeps (@Waits Image) delay := fun d => mapHandler_waits tick_depth d

theorem actionDie_wp (a : DieAnswer) (d : Drive Image) :
    wp (actionDie a) (fun res d' => Waits d d' ∧ (res = .notKnown → d' = d)) (fun _ => False) d := by
  rw [actionDie, wp_bind, wp_get]
  cases d.handler with
  | none => exact ⟨refl_of Waits d, fun _ => rfl⟩
  | some h =>
    refine wp_ite (fun _ => ⟨refl_of Waits d, fun _ => rfl⟩) fun _ => ?_
    refine ⟨mapHandler_waits (told_depth a.exits) d, fun h => ?_⟩
    split_ifs at h

/-- The tries of FMOUNT: at 0 the handler is gone. -/
theorem awaitInactive_wp (n : ℕ) (d : Drive Image) :
    wp (awaitInactive n) (fun rc d' => Waits d d' ∧ (rc = 0 → d'.handler = none)) (fun _ => False) d := by
  induction n generalizing d with
  | zero => exact ⟨refl_of Waits d, fun h => absurd h (by decide)⟩
  | succ n ih =>
    rw [awaitInactive, snapshotNode, wp_bind, wp_bind, wp_get, wp_pure]
    refine wp_ite (fun h => ⟨refl_of Waits d, fun _ => ?_⟩) fun _ => ?_
    · have hinactive := ((Bool.and_eq_true _ _).mp h).2
      rw [ofNode_active] at hinactive
      simpa using hinactive
    · rw [wp_bind]
      refine (ih _).mono (fun rc d' h => ⟨trans_of Waits (delay_waits d) h.1, h.2⟩) fun _ => id

/-- The tries of FUMOUNT. -/
theorem waitHandlerRetired_wp (lock : ℕ → Bool) (n : ℕ) (d : Drive Image) :
    wp (waitHandlerRetired lock n) (fun rc d' => Waits d d' ∧ (rc = 0 → d'.handler = none)) (fun _ => False) d := by
  induction n generalizing d with
  | zero =>
    rw [waitHandlerRetired]
    refine wp_ite (fun _ => ⟨refl_of Waits d, fun h => absurd h (by decide)⟩) fun _ => ?_
    rw [wp_bind, wp_get]
    refine wp_ite (fun h => ⟨refl_of Waits d, fun _ => Option.isNone_iff_eq_none.1 h⟩) fun _ => ?_
    exact ⟨refl_of Waits d, fun h => absurd h (by decide)⟩
  | succ n ih =>
    rw [waitHandlerRetired, wp_bind, wp_get]
    refine wp_ite (fun h => ⟨refl_of Waits d, fun _ => ?_⟩) fun _ => ?_
    · exact Option.isNone_iff_eq_none.1 ((Bool.and_eq_true _ _).mp h).2
    · rw [wp_bind]
      exact (ih _).mono (fun rc d' h => ⟨trans_of Waits (delay_waits d) h.1, h.2⟩) fun _ => id

/-- A handler that was to retire is gone when the program goes on. -/
theorem retireHandler_wp (a : DieAnswer) (d : Drive Image) :
    wp (retireHandler (.ofNode d.node) a) (fun rc d' => Waits d d' ∧ (rc = 0 → d'.handler = none)) (fun _ => False) d := by
  rw [retireHandler]
  refine wp_ite (fun h => ⟨refl_of Waits d, fun _ => ?_⟩) fun _ => ?_
  · rw [ofNode_active] at h
    simpa using h
  · refine wp.seq (actionDie_wp a d) fun res d₁ h₁ => ?_
    refine wp_ite (fun _ => ⟨h₁.1, fun h => absurd h (by decide)⟩) fun _ => ?_
    exact (awaitInactive_wp 20 d₁).mono (fun rc d' h => ⟨trans_of Waits h₁.1 h.1, h.2⟩) fun _ => id

/-! ### FMOUNT -/

/-- The handler before the image is mounted: inhibited once by this run or by an earlier
FUMOUNT, or gone. -/
structure Taken (compatible : Bool) (d : Drive Image) (inhibited parked : Bool) (d' : Drive Image) : Prop where
  media : d'.media = d.media
  deepest : d'.deepest ≤ 1
  environ : d'.node.map DosNode.environ = d.node.map DosNode.environ
  held : inhibited = true → compatible = true ∧ (∃ h, d'.handler = some h) ∧ d'.depth = 1
  free : inhibited = false → parked = false ∧ d'.handler = none
  empty : parked = true → inhibited = true ∧ d'.media = none

theorem Taken.unheld {compatible : Bool} {d d' : Drive Image} (hd : d.Disciplined) (h : Waits d d')
    (hnone : d'.handler = none) : Taken compatible d false false d' where
  media := h.media
  deepest := h.deepest ▸ hd.shallow
  environ := h.environ
  held := fun h => absurd h (by decide)
  free := fun _ => ⟨rfl, hnone⟩
  empty := fun h => absurd h (by decide)

theorem nodeParked_run (d : Drive Image) :
    (nodeParked (.ofNode d.node)).run d =
      .ok (d.handler.isSome && d.media.isNone && decide (0 < d.depth)) d := by
  rw [← ofNode_active]
  rfl

theorem takeHandler_wp (a : FmountAnswers Image) (compatible : Bool) {d : Drive Image} (hd : d.Disciplined) :
    wp (takeHandler a (.ofNode d.node) compatible)
      (fun res d' => match res with
        | none => d'.Disciplined
        | some (inhibited, parked) => Taken compatible d inhibited parked d')
      (fun _ => False) d := by
  rw [takeHandler, wp_bind, wp_of_ok (nodeParked_run d)]
  refine wp_ite (fun hp => ?_) fun hp => ?_
  · -- parked by an earlier FUMOUNT
    refine wp_ite (fun _ => hd) fun hc => ?_
    simp only [Bool.and_eq_true, decide_eq_true_eq, Option.isNone_iff_eq_none, Option.isSome_iff_exists] at hp
    obtain ⟨⟨hh, hm⟩, hpos⟩ := hp
    have h1 : d.depth = 1 := by
      rcases hd.depth with h | ⟨-, h, -⟩
      · omega
      · exact h
    exact {
      media := rfl
      deepest := hd.shallow
      environ := rfl
      held := fun _ => ⟨by simpa using hc, hh, h1⟩
      free := fun h => absurd h (by decide)
      empty := fun _ => ⟨rfl, hm⟩ }
  have h0 : d.depth = 0 := by
    rcases hd.depth with h | ⟨⟨h, hh⟩, h1, hm⟩
    · exact h
    · exact absurd (by rw [hh, hm, h1]; rfl) hp
  rw [ofNode_active]
  refine wp_ite (fun hc => ?_) fun hc => ?_
  · obtain ⟨hcomp, hact⟩ := (Bool.and_eq_true _ _).mp hc
    rw [inhibitTrue]
    cases a.inhibit with
    | false => exact hd
    | true =>
      obtain ⟨hh, h1, hdeep⟩ := Drive.inhibit_free hact h0
      have htaken : Taken compatible d true false d.inhibit := {
        media := rfl
        deepest := hdeep ▸ max_le hd.shallow le_rfl
        environ := Drive.mapHandler_environ _
        held := fun _ => ⟨hcomp, hh, h1⟩
        free := fun h => absurd h (by decide)
        empty := fun h => absurd h (by decide) }
      exact htaken
  · refine wp_ite (fun hincomp => ?_) fun hcomp => ?_
    · refine wp.seq (retireHandler_wp a.die d) fun rc d' h => ?_
      refine wp_ite (fun _ => h.1.disciplined hd) fun hrc => ?_
      exact Taken.unheld hd h.1 (h.2 (not_not.1 hrc))
    · have hcomp' : compatible = true := by simpa using hcomp
      have hnone : d.handler = none := by
        rw [hcomp', Bool.true_and] at hc
        simpa using hc
      exact Taken.unheld hd (refl_of Waits d) hnone

theorem compatible_iff (profile : MediaProfile) (dostype : Long) (node : DosNode) :
    (NodeSnapshot.ofNode (some node)).compatible profile dostype = true ↔ node.environ = profile.environ dostype := by
  obtain ⟨⟨surfaces, bpt, low, high, dos⟩, task⟩ := node
  simp only [NodeSnapshot.compatible, NodeSnapshot.ofNode, MediaProfile.environ, DosEnvec.mk.injEq, Bool.not_true,
    Bool.false_or, Bool.and_eq_true, beq_iff_eq]
  tauto

section Mount

variable {lib : Support Image} {a : FmountAnswers Image} {image : Image} {profile : MediaProfile} {dostype : Long}
  {compatible inhibited parked : Bool} {d d' : Drive Image}

/-- The unit when the image is mounted and the node is as it is to be. -/
structure Fits (image : Image) (profile : MediaProfile) (dostype : Long) (d : Drive Image) : Prop where
  depth : d.depth = 0
  media : d.media = some image
  node : ∃ n, d.node = some n ∧ n.environ = profile.environ dostype

/-- A step that has written the node of a unit without a handler: at 0 it is as it is to be. -/
structure Wrote (profile : MediaProfile) (dostype : Long) (d : Drive Image) (rc : ℕ) (d' : Drive Image) : Prop where
  media : d'.media = d.media
  deepest : d'.deepest = d.deepest
  handler : d'.handler = none
  node : rc = 0 → ∃ n, d'.node = some n ∧ n.environ = profile.environ dostype

theorem Wrote.failed (h : d.handler = none) : Wrote profile dostype d 30 d := ⟨rfl, rfl, h, fun h => absurd h (by decide)⟩

theorem createNode_wp (hlib : lib.Builds) (h : d.handler = none) :
    wp (createNode lib a profile dostype) (Wrote profile dostype d) (fun _ => False) d := by
  rw [createNode]
  cases hb : lib.buildDosEnvec profile dostype with
  | none => exact Wrote.failed h
  | some env =>
    refine wp_ite (fun _ => Wrote.failed h) fun _ => wp_ite (fun _ => Wrote.failed h) fun _ => ?_
    exact ⟨rfl, rfl, rfl, fun _ => ⟨⟨env, none⟩, rfl, hlib profile dostype env hb⟩⟩

theorem updateInactiveEnvec_wp (answer : Bool) (h : d.handler = none) :
    wp (updateInactiveEnvec answer profile dostype) (Wrote profile dostype d) (fun _ => False) d := by
  rw [updateInactiveEnvec]
  refine wp_ite (fun _ => Wrote.failed h) fun _ => ?_
  rw [wp_bind, wp_get]
  cases hn : d.node with
  | none => exact Wrote.failed h
  | some n =>
    refine wp_ite (fun _ => Wrote.failed h) fun hact => ?_
    have htask : n.task = none := by simpa using hact
    exact ⟨rfl, rfl, htask, fun _ => ⟨_, rfl, rfl⟩⟩

/-- The unit before the handler is let go: when the image failed it is as before, unless no
handler is held. -/
structure Followed (image : Image) (profile : MediaProfile) (dostype : Long) (inhibited : Bool) (d : Drive Image)
    (result : Long) (d' : Drive Image) : Prop where
  handler : d'.handler = d.handler
  deepest : d'.deepest = d.deepest
  failed : result ≠ 0 → inhibited = true → d'.media = d.media
  media : result = 0 → d'.media = some image
  node : result = 0 → ∃ n, d'.node = some n ∧ n.environ = profile.environ dostype

theorem restoreAccess_wp (h : Taken compatible d inhibited parked d') {result : Long} {d₁ : Drive Image}
    (h₁ : Followed image profile dostype inhibited d' result d₁) :
    wp (restoreAccess inhibited parked result)
      (fun r d₂ => d₂.Disciplined ∧ (r = 0 → Fits image profile dostype d₂)) (fun _ => False) d₁ := by
  have hdepth : d₁.depth = d'.depth := by rw [Drive.depth, Drive.depth, h₁.handler]
  have hdeep : d₁.deepest ≤ 1 := h₁.deepest ▸ h.deepest
  rw [restoreAccess]
  refine wp_ite (fun hin => ?_) fun hin => ?_
  · obtain ⟨-, -, h1⟩ := h.held hin.1
    have h0 : d₁.uninhibit.depth = 0 := by rw [Drive.uninhibit_depth, hdepth, h1]
    have hnot : ¬(result = 0 ∧ true = false) := fun h => absurd h.2 (by decide)
    rw [inhibitFalse, wp_bind, wp_bind, wp_modify, wp_pure, if_neg hnot]
    refine ⟨⟨hdeep, .inl h0⟩, fun hr => ⟨h0, h₁.media hr, ?_⟩⟩
    obtain ⟨n, hn, henv⟩ := h₁.node hr
    have hnode : d₁.uninhibit.node = some { n with task := n.task.bind fun h => some { h with depth := h.depth - 1 } } := by
      rw [Drive.uninhibit, Drive.mapHandler, hn]
      rfl
    exact ⟨_, hnode, henv⟩
  · cases hi : inhibited with
    | false =>
      have h0 : d₁.depth = 0 := Drive.depth_of_none (h₁.handler.trans (h.free hi).2)
      exact ⟨⟨hdeep, .inl h0⟩, fun hr => ⟨h0, h₁.media hr, h₁.node hr⟩⟩
    | true =>
      -- a parked handler stays inhibited when the image fails
      have hr : result ≠ 0 := fun h0 => hin ⟨hi, .inl h0⟩
      have hp : parked = true := by
        by_contra hp
        exact hin ⟨hi, .inr (by simpa using hp)⟩
      obtain ⟨-, hh, h1⟩ := h.held hi
      refine ⟨⟨hdeep, .inr ⟨h₁.handler ▸ hh, hdepth.trans h1, ?_⟩⟩, fun h0 => absurd h0 hr⟩
      exact (h₁.failed hr hi).trans (h.empty hp).2

theorem mountCatalog_failed (hm : a.mount ≠ 0) (d : Drive Image) : (mountCatalog image a.mount).run d = .ok a.mount d := by
  rw [mountCatalog, if_neg hm]
  rfl

theorem mountCatalog_done (hm : a.mount = 0) (d : Drive Image) :
    (mountCatalog image a.mount).run d = .ok 0 { d with media := some image } := by
  rw [mountCatalog, if_pos hm, hm]
  rfl

/-- The steps between the image and the handler do nothing after a failure, or when nothing is due. -/
theorem createAdded_skip {createAfterMount : Bool} {result : Long} (h : ¬(result = 0 ∧ createAfterMount = true))
    (d : Drive Image) : (createAdded lib a profile dostype createAfterMount result).run d = .ok result d := by
  rw [createAdded, if_neg h]
  rfl

theorem updateEnvec_skip {result : Long} (h : ¬(result = 0 ∧ compatible = false)) (d : Drive Image) :
    (updateEnvec a profile dostype compatible result).run d = .ok result d := by
  rw [updateEnvec, if_neg h]
  rfl

/-- The image is mounted, and no handler is held; the node was written or not. -/
theorem Wrote.followed {rc : ℕ} {d₁ d₂ : Drive Image} (h : Wrote profile dostype d₁ rc d₂) (hnone : d.handler = none)
    (hdeep : d₁.deepest = d.deepest) (hmedia : d₁.media = some image) (hfree : inhibited = false) :
    Followed image profile dostype inhibited d (if rc ≠ 0 then 30 else 0) d₂ where
  handler := h.handler.trans hnone.symm
  deepest := h.deepest.trans hdeep
  failed := fun _ hi => absurd (hi.symm.trans hfree) (by decide)
  media := fun _ => h.media.trans hmedia
  node := by
    intro hr
    refine h.node ?_
    by_contra hrc
    rw [if_pos hrc] at hr
    exact absurd hr (by decide)

/-- The result after a step that has written the node. -/
theorem Wrote.followed_wp {rc : ℕ} {d₁ d₂ : Drive Image} (h : Wrote profile dostype d₁ rc d₂) (hnone : d.handler = none)
    (hdeep : d₁.deepest = d.deepest) (hmedia : d₁.media = some image) (hfree : inhibited = false) :
    wp (if rc ≠ 0 then return 30 else return 0 : Dos Image Long) (Followed image profile dostype inhibited d)
      (fun _ => False) d₂ := by
  have hfollowed := h.followed hnone hdeep hmedia hfree
  refine wp_ite (fun hrc => ?_) fun hrc => ?_
  · rw [if_pos hrc] at hfollowed
    exact hfollowed
  · rw [if_neg hrc] at hfollowed
    exact hfollowed

theorem createAdded_wp (hlib : lib.Builds) {d₁ : Drive Image} (hnone : d.handler = none) (hhandler : d₁.handler = none)
    (hdeep : d₁.deepest = d.deepest) (hmedia : d₁.media = some image) (hfree : inhibited = false) :
    wp (createAdded lib a profile dostype true 0) (Followed image profile dostype inhibited d) (fun _ => False) d₁ := by
  have hwrote : Wrote profile dostype d₁ 30 d₁ := Wrote.failed hhandler
  have hfailed := hwrote.followed hnone hdeep hmedia hfree
  rw [createAdded, if_pos ⟨rfl, rfl⟩]
  refine wp_ite (fun _ => hfailed) fun _ => ?_
  refine wp.seq (createNode_wp hlib hhandler) fun rc d₂ hw => ?_
  exact hw.followed_wp hnone hdeep hmedia hfree

theorem updateEnvec_wp {d₁ : Drive Image} (hnone : d.handler = none) (hhandler : d₁.handler = none)
    (hdeep : d₁.deepest = d.deepest) (hmedia : d₁.media = some image) (hfree : inhibited = false) :
    wp (updateEnvec a profile dostype false 0) (Followed image profile dostype inhibited d) (fun _ => False) d₁ := by
  rw [updateEnvec, if_pos ⟨rfl, rfl⟩]
  refine wp.seq (updateInactiveEnvec_wp a.update hhandler) fun rc d₂ hw => ?_
  exact hw.followed_wp hnone hdeep hmedia hfree

theorem mountImage_wp (hlib : lib.Builds) (h : Taken compatible d inhibited parked d')
    (hcomp : compatible = (NodeSnapshot.ofNode d.node).compatible profile dostype) :
    wp (mountImage lib a image profile dostype (!(NodeSnapshot.ofNode d.node).present) compatible inhibited parked)
      (fun r d'' => d''.Disciplined ∧ (r = 0 → Fits image profile dostype d'')) (fun _ => False) d' := by
  rw [mountImage, wp_bind]
  by_cases hm : a.mount = 0
  · rw [wp_of_ok (mountCatalog_done hm d')]
    generalize hd₁ : ({ d' with media := some image } : Drive Image) = d₁
    have hhandler : d₁.handler = d'.handler := by rw [← hd₁]; rfl
    have hmedia : d₁.media = some image := by rw [← hd₁]
    have hdeep : d₁.deepest = d'.deepest := by rw [← hd₁]
    have hnode : d₁.node.map DosNode.environ = d.node.map DosNode.environ := by rw [← hd₁]; exact h.environ
    have hfree (hnone : d'.handler = none) : inhibited = false := by
      by_contra hi
      obtain ⟨-, ⟨h, hh⟩, -⟩ := h.held (by simpa using hi)
      exact absurd (hh.symm.trans hnone) (by simp)
    cases hn : d.node with
    | none =>
      -- there is no node yet
      have hc : compatible = true := by rw [hcomp, hn]; rfl
      have hnone : d'.handler = none := by
        rw [Drive.handler, Drive.node_of_environ h.environ (by rw [hn]; rfl)]
        rfl
      refine wp.seq (createAdded_wp hlib hnone (hhandler.trans hnone) hdeep hmedia (hfree hnone)) fun result d₂ h₂ => ?_
      rw [wp_bind, wp_of_ok (updateEnvec_skip (fun h => absurd (h.2.symm.trans hc) (by decide)) d₂)]
      exact restoreAccess_wp h h₂
    | some n =>
      rw [wp_bind, wp_of_ok (createAdded_skip (fun h => absurd h.2 (by simp [NodeSnapshot.ofNode])) d₁)]
      cases hc : compatible with
      | true =>
        -- the node is as it is to be
        rw [wp_bind, wp_of_ok (updateEnvec_skip (fun h => absurd h.2 (by decide)) d₁)]
        have henv : n.environ = profile.environ dostype := (compatible_iff profile dostype n).1 (by rw [← hn, ← hcomp, hc])
        rw [hn] at hnode
        obtain ⟨n₁, hn₁, henv₁⟩ := Option.map_eq_some_iff.1 hnode
        exact restoreAccess_wp h ⟨hhandler, hdeep, fun h => absurd rfl h, fun _ => hmedia,
          fun _ => ⟨n₁, hn₁, henv₁.trans henv⟩⟩
      | false =>
        have hi : inhibited = false := by
          by_contra hi
          exact absurd ((h.held (by simpa using hi)).1.symm.trans hc) (by decide)
        have hnone := (h.free hi).2
        exact wp.seq (updateEnvec_wp hnone (hhandler.trans hnone) hdeep hmedia hi) fun result d₂ h₂ => restoreAccess_wp h h₂
  · -- no image
    have hfollowed : Followed image profile dostype inhibited d' a.mount d' :=
      ⟨rfl, rfl, fun _ _ => rfl, fun h => absurd h hm, fun h => absurd h hm⟩
    rw [wp_of_ok (mountCatalog_failed hm d'), wp_bind, wp_of_ok (createAdded_skip (fun h => hm h.1) d'), wp_bind,
      wp_of_ok (updateEnvec_skip (fun h => hm h.1) d')]
    exact restoreAccess_wp h hfollowed

end Mount

/-- A run of FMOUNT. -/
theorem fmount_wp {lib : Support Image} (hlib : lib.Builds) (a : FmountAnswers Image) {d : Drive Image} (hd : d.Disciplined) :
    wp (fmount lib a)
      (fun rc d' => d'.Disciplined ∧ (rc = 0 → ∃ image, a.image = some image ∧ d'.Mounted lib image)) (fun _ => False) d := by
  rw [fmount]
  refine wp_ite (fun _ => hd.failed (by decide)) fun _ => ?_
  cases a.image with
  | none => exact hd.failed (by decide)
  | some image =>
    dsimp only
    cases hprofile : lib.classifyMediaProfile image with
    | none => exact hd.failed (by decide)
    | some profile =>
      cases hdos : lib.classifyFilesystem image with
      | none => exact hd.failed (by decide)
      | some dostype =>
        rw [snapshotNode, wp_bind, wp_bind, wp_get, wp_pure]
        refine wp.seq (takeHandler_wp a _ hd) fun res d' h => ?_
        cases res with
        | none => exact h.failed (by decide)
        | some held =>
          obtain ⟨inhibited, parked⟩ := held
          refine wp.seq (mountImage_wp hlib h rfl) fun r d'' hr => ?_
          refine wp_ite (fun _ => hr.1.failed (by decide)) fun h0 => ?_
          obtain ⟨hdepth, hmedia, n, hn, henv⟩ := hr.2 (not_not.1 h0)
          exact ⟨hr.1, fun _ => ⟨image, rfl, hdepth, hmedia, profile, dostype, n, hprofile, hdos, hn, henv⟩⟩

/-! ### FUMOUNT -/

/-- The handler before the media is ejected: inhibited once, or gone. -/
structure Quieted (inhibited : Bool) (d : Drive Image) : Prop where
  deepest : d.deepest ≤ 1
  held : inhibited = true → (∃ h, d.handler = some h) ∧ d.depth = 1
  free : inhibited = false → d.handler = none

theorem retired_wp (lock : ℕ → Bool) {d d₁ : Drive Image} (hd : d.Disciplined) (h₁ : Waits d d₁) :
    wp (do if (← waitHandlerRetired lock 20) ≠ 0 then return none else return some false)
      (fun (res : Option Bool) d' => match res with
        | none => d'.Disciplined
        | some inhibited => Quieted inhibited d')
      (fun _ => False) d₁ := by
  refine wp.seq (waitHandlerRetired_wp lock 20 d₁) fun rc d' h => ?_
  have hd' : d'.Disciplined := (trans_of Waits h₁ h.1).disciplined hd
  refine wp_ite (fun _ => hd') fun hrc => ?_
  exact ⟨hd'.shallow, fun h => absurd h (by decide), fun _ => h.2 (not_not.1 hrc)⟩

theorem quietHandler_wp (a : FumountAnswers) {d : Drive Image} (hd : d.Disciplined) (hact : d.handler.isSome) :
    wp (quietHandler a)
      (fun res d' => match res with
        | none => d'.Disciplined
        | some inhibited => Quieted inhibited d')
      (fun _ => False) d := by
  rw [quietHandler]
  refine wp_ite (fun _ => hd) fun _ => ?_
  rw [diskBusy, wp_bind, wp_bind, wp_get, wp_pure]
  refine wp_ite (fun _ => hd) fun hbusy => wp_ite (fun _ => hd) fun _ => ?_
  have h0 : d.depth = 0 := by
    rw [decide_eq_true_eq] at hbusy
    omega
  refine wp.seq (actionDie_wp a.die d) fun res d₁ h₁ => ?_
  cases res with
  | notKnown =>
    -- the handler cannot exit
    rw [h₁.2 rfl]
    refine wp_ite (fun _ => hd) fun _ => ?_
    rw [inhibitTrue]
    cases a.inhibit with
    | false => exact hd
    | true =>
      obtain ⟨hh, h1, hdeep⟩ := Drive.inhibit_free hact h0
      have hquieted : Quieted true d.inhibit :=
        ⟨hdeep ▸ max_le hd.shallow le_rfl, fun _ => ⟨hh, h1⟩, fun h => absurd h (by decide)⟩
      exact hquieted
  | refused => exact retired_wp a.waitLock hd h₁.1
  | accepted => exact retired_wp a.waitLock hd h₁.1

theorem tdEject_run (answer : Long) (d : Drive Image) :
    (tdEject answer).run d = .ok answer { d with media := if answer = 0 then none else d.media } := by
  rw [tdEject]
  split_ifs <;> rfl

/-- A unit whose handler is inhibited or gone. -/
theorem ejectUnit_wp (a : FumountAnswers) {inhibited : Bool} {d : Drive Image} (h : Quieted inhibited d) :
    wp (ejectUnit a inhibited) (fun rc d' => d'.Disciplined ∧ (rc = 0 → d'.Unmounted)) (fun _ => False) d := by
  rw [ejectUnit, wp_bind, wp_of_ok (tdEject_run a.eject d)]
  by_cases he : a.eject = 0
  · rw [if_pos he, if_neg (fun h => h.2 he), if_neg (not_not.2 he)]
    cases inhibited with
    | true =>
      obtain ⟨hh, h1⟩ := h.held rfl
      have hparked : ({ d with media := none } : Drive Image).Parked := ⟨hh, h1, rfl⟩
      exact ⟨⟨h.deepest, .inr hparked⟩, fun _ => ⟨rfl, .inr hparked⟩⟩
    | false =>
      have hfree : ({ d with media := none } : Drive Image).Disciplined :=
        ⟨h.deepest, .inl (Drive.depth_of_none (h.free rfl))⟩
      rw [if_neg (by decide), removeEntry]
      refine wp_ite (fun _ => hfree.failed (by decide)) fun _ => ?_
      rw [wp_bind, wp_get]
      refine wp_ite (fun _ => hfree.failed (by decide)) fun _ => ?_
      exact ⟨⟨h.deepest, .inl rfl⟩, fun _ => ⟨rfl, .inl rfl⟩⟩
  · rw [if_neg he]
    refine wp_ite (fun hi => ?_) fun hi => ?_
    · -- the handler gets its media back
      have h0 : d.uninhibit.depth = 0 := by rw [Drive.uninhibit_depth, (h.held hi.1).2]
      exact Drive.Disciplined.failed ⟨h.deepest, .inl h0⟩ (by decide)
    · have hfree : inhibited = false := by
        by_contra hf
        exact hi ⟨by simpa using hf, he⟩
      rw [if_pos he]
      exact Drive.Disciplined.failed ⟨h.deepest, .inl (Drive.depth_of_none (h.free hfree))⟩ (by decide)

theorem fumount_wp (a : FumountAnswers) {d : Drive Image} (hd : d.Disciplined) :
    wp (fumount a) (fun rc d' => d'.Disciplined ∧ (rc = 0 → d'.Unmounted)) (fun _ => False) d := by
  rw [fumount]
  refine wp_ite (fun _ => hd.failed (by decide)) fun _ => ?_
  rw [wp_bind, getHandlerState]
  refine wp_ite (fun _ => hd.failed (by decide)) fun _ => ?_
  rw [wp_bind, wp_get]
  refine wp_ite (fun hact => ?_) fun hact => ?_
  · refine wp.seq (quietHandler_wp a hd hact) fun res d' h => ?_
    cases res with
    | none => exact h.failed (by decide)
    | some inhibited => exact ejectUnit_wp a h
  · exact ejectUnit_wp a ⟨hd.shallow, fun h => absurd h (by decide), fun _ => by simpa using hact⟩

/-! ### Runs -/

theorem start_handler (dies : Bool) (d : Drive Image) :
    (d.start dies).handler = d.node.bind fun n => n.task.or (some ⟨0, dies, none⟩) := by
  rw [Drive.handler, Drive.start]
  cases d.node <;> rfl

theorem start_disciplined (dies : Bool) {d : Drive Image} (hd : d.Disciplined) : (d.start dies).Disciplined := by
  refine ⟨hd.shallow, ?_⟩
  cases hn : d.node with
  | none => exact .inl (Drive.depth_of_none (by rw [start_handler, hn]; rfl))
  | some n =>
    cases ht : n.task with
    | none =>
      have hnew : (d.start dies).handler = some ⟨0, dies, none⟩ := by
        rw [start_handler, hn, Option.bind_some, ht]
        rfl
      exact .inl (Drive.depth_of_some hnew)
    | some h =>
      -- the handler is there already
      have hold : d.handler = some h := by rw [Drive.handler, hn, Option.bind_some, ht]
      have hsame : (d.start dies).handler = some h := by
        rw [start_handler, hn, Option.bind_some, ht]
        rfl
      have hdepth : (d.start dies).depth = d.depth := by rw [Drive.depth_of_some hsame, Drive.depth_of_some hold]
      rcases hd.depth with h0 | ⟨-, h1, hm⟩
      · exact .inl (hdepth.trans h0)
      · exact .inr ⟨⟨h, hsame⟩, hdepth.trans h1, hm⟩

theorem exec_wp {lib : Support Image} (hlib : lib.Builds) (e : Event Image) {d : Drive Image} (hd : d.Disciplined) :
    wp (e.exec lib) (fun code d' => d'.Disciplined ∧ Step.Returned lib ⟨e, code, d'⟩) (fun _ => False) d := by
  cases e with
  | fmount a => exact fmount_wp hlib a hd
  | fumount a => exact fumount_wp a hd
  | start dies => exact ⟨start_disciplined dies hd, trivial⟩
  | tick => exact ⟨(delay_waits d).disciplined hd, trivial⟩

/-- Over every sequence of runs, from every unit in order: the inhibition is never deeper than
one, and is left behind only on a parked handler; an FMOUNT that returns 0 leaves its image on a
node that fits and a handler that is free, and an FUMOUNT that returns 0 no media, and no node or
a parked handler. -/
theorem inhibit_discipline {lib : Support Image} (hlib : lib.Builds) (events : List (Event Image)) {d : Drive Image}
    (hd : d.Disciplined) :
    (steps lib events d).map Step.event = events ∧ ∀ s ∈ steps lib events d, s.after.Disciplined ∧ s.Returned lib := by
  induction events generalizing d with
  | nil => exact ⟨rfl, fun s hs => absurd hs (by simp [steps])⟩
  | cons e es ih =>
    obtain ⟨code, d', hrun, hd', hreturned⟩ := (exec_wp hlib e hd).returns
    obtain ⟨hevents, hrest⟩ := ih hd'
    rw [steps, hrun]
    refine ⟨by rw [List.map_cons, hevents], fun s hs => ?_⟩
    rcases List.mem_cons.1 hs with rfl | hs
    · exact ⟨hd', hreturned⟩
    · exact hrest s hs

/-! ### A run -/

/-- Images of one format; the number is the DOS type. -/
def oneFormat : Support ℕ where
  classifyMediaProfile _ := some ⟨2, 11, 0, 79⟩
  classifyFilesystem image := some (BitVec.ofNat 32 image)
  buildDosEnvec profile dostype := some (profile.environ dostype)

def mounting (image : ℕ) : FmountAnswers ℕ := ⟨true, some image, true, ⟨true, some 3⟩, 0, true, true, true, true⟩

def ejecting : FumountAnswers := ⟨true, true, true, true, ⟨true, some 3⟩, fun _ => true, false, true, 0, true⟩

/-- A handler without ACTION_DIE is parked, refuses an image of another kind, and takes one of its own. -/
def parkedRun : List (Event ℕ) :=
  [.fmount (mounting 1), .start false, .fumount ejecting, .fumount ejecting, .fmount (mounting 2), .fmount (mounting 1)]

theorem inhibit_discipline_parked :
    (steps oneFormat parkedRun ⟨none, none, 0⟩).map (fun s => (s.code, s.after.depth, s.after.media)) =
      [(0, 0, some 1), (0, 0, some 1), (0, 1, none), (10, 1, none), (10, 1, none), (0, 0, some 1)] ∧
    (steps oneFormat parkedRun ⟨none, none, 0⟩).map Step.event = parkedRun ∧
    ∀ s ∈ steps oneFormat parkedRun ⟨none, none, 0⟩, s.after.Disciplined ∧ s.Returned oneFormat :=
  ⟨by decide +kernel, inhibit_discipline (fun _ _ _ h => (Option.some.inj h).symm) parkedRun ⟨by decide, .inl rfl⟩⟩

end NioApps.Amiga
