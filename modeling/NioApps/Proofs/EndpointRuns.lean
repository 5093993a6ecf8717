import NioApps.Proofs.StaticEndpoints

/-! Runs of FMOUNT and FUMOUNT under Kickstart 1.3. Whatever fails, a unit only holds media
of its own kind; when the files in T: can be used, a handler is started once, and a logical
unit that is written down has its media. -/

namespace NioApps.Kick13

open Abort Commands
open AppStore (ascii)

variable {Image : Type} {lib : Support Image}

/-! ### Steps -/

theorem exec_wp (e : Event Image) (s : System Image) {Q : Exit → System Image → Prop}
    (hfmount : ∀ args a exit s', e = .fmount args a → Fmounts lib args a s exit s' → Q (.fmount exit) s')
    (hfumount : ∀ args a exit s', e = .fumount args a → Fumounts args a s exit s' → Q (.fumount exit) s') :
    wp (e.exec lib) Q (fun _ => False) s := by
  cases e with
  | fmount args a =>
    rw [Event.exec, map_eq_pure_bind]
    exact wp.seq (fmount_wp lib args a s) fun exit s' h => hfmount args a exit s' rfl h
  | fumount args a =>
    rw [Event.exec, map_eq_pure_bind]
    exact wp.seq (fumount_wp args a s) fun exit s' h => hfumount args a exit s' rfl h

/-- What every program keeps holds after each, with what every program does. -/
theorem steps_keep {P : System Image → Prop} {Q : Step Image → Prop} {events : List (Event Image)}
    (hstep : ∀ e ∈ events, ∀ s, P s → wp (e.exec lib) (fun exit s' => P s' ∧ Q ⟨e, exit, exit.code, exit.text, s, s'⟩) (fun _ => False) s)
    {s : System Image} (hs : P s) :
    (steps lib events s).map Step.event = events ∧ ∀ st ∈ steps lib events s, P st.after ∧ Q st := by
  induction events generalizing s with
  | nil =>
    constructor
    · rfl
    · intro st hst
      cases hst
  | cons e es ih =>
    obtain ⟨exit, s', hrun, hP, hQ⟩ := (hstep e List.mem_cons_self s hs).returns
    have hsteps : steps lib (e :: es) s = ⟨e, exit, exit.code, exit.text, s, s'⟩ :: steps lib es s' := by rw [steps, hrun]
    obtain ⟨hevents, hrest⟩ := ih (fun e' he' => hstep e' (List.mem_cons_of_mem _ he')) hP
    rw [hsteps]
    constructor
    · rw [List.map_cons, hevents]
    · intro st hst
      rcases List.mem_cons.1 hst with rfl | hst
      · exact ⟨hP, hQ⟩
      · exact hrest st hst

/-! ### Media -/

theorem Asks.suits {args : List (List Byte)} {a : FmountAnswers Image} {target : Target} {m : Medium Image} {unit : Fin 8}
    (h : Asks lib args a target m (profileOf unit) (dostypeOf unit)) : lib.Suits m.image unit := ⟨h.profile, h.dostype⟩

theorem Starts.media {a : FmountAnswers Image} {unit : Fin 8} {label : List Byte} {s s' : System Image} (h : Starts a unit label s s') :
     s'.media = s.media := by
  cases h <;> rfl

theorem record_media (s : System Image) (target : Target) (label : List Byte) (answer : Option ℕ) :
    (s.record target label answer).media = s.media := by
  cases target <;> rfl

theorem clear_media (s : System Image) (index : Fin 2) (answer : Bool) : (s.clear index answer).media = s.media := by
  unfold System.clear
  split_ifs <;> rfl

theorem clear_endpoints (s : System Image) (index : Fin 2) (answer : Bool) :
    (s.clear index answer).endpoints = s.endpoints ∧ (s.clear index answer).mounts = s.mounts := by
  unfold System.clear
  split_ifs <;> exact ⟨rfl, rfl⟩

/-- Only the files of the logical units change when a unit is forgotten. -/
theorem forget_keeps (s : System Image) (a : FumountAnswers) (logicalUnit : Option (Fin 2)) (label : List Byte) :
    (s.forget a logicalUnit label).media = s.media ∧ (s.forget a logicalUnit label).endpoints = s.endpoints ∧
      (s.forget a logicalUnit label).mounts = s.mounts := by
  have hmatching : ∀ (s : System Image) index, (s.clearMatching a label index).media = s.media ∧
      (s.clearMatching a label index).endpoints = s.endpoints ∧ (s.clearMatching a label index).mounts = s.mounts := by
    intro s index
    unfold System.clearMatching
    split_ifs
    · exact ⟨clear_media s index _, clear_endpoints s index _⟩
    · exact ⟨rfl, rfl, rfl⟩
  cases logicalUnit with
  | some index => exact ⟨clear_media s index _, clear_endpoints s index _⟩
  | none =>
    obtain ⟨hmedia, hendpoints, hmounts⟩ := hmatching s 0
    obtain ⟨hmedia', hendpoints', hmounts'⟩ := hmatching (s.clearMatching a label 0) 1
    exact ⟨hmedia'.trans hmedia, hendpoints'.trans hendpoints, hmounts'.trans hmounts⟩

/-- Images that are nothing but their kind. -/
def kindSupport : Support (Profile × DosType) where
  classifyMediaProfile image := if image.1 = .ddAdf ∨ image.1 = .hdAdf then some image.1 else none
  classifyFilesystem image := if image.2 = .ffs ∨ image.2 = .ofs then some image.2 else none

def granted (image : Profile × DosType) : FmountAnswers (Profile × DosType) :=
  ⟨true, some image, true, true, 0, true, true, some 4, some 4⟩

def ejects : FumountAnswers := ⟨fun _ => true, true, true, true, 0, fun _ => true⟩

/-- `FMOUNT 5 0`, `FMOUNT 6 0`, `FUMOUNT 0`, `FMOUNT 6 0 RO` and `FUMOUNT HO0:`. -/
def swap : List (Event (Profile × DosType)) :=
  [.fmount [[0x35], [0x30]] (granted (.ddAdf, .ffs)), .fmount [[0x36], [0x30]] (granted (.hdAdf, .ofs)), .fumount [[0x30]] ejects,
    .fmount [[0x36], [0x30], [0x52, 0x4f]] (granted (.hdAdf, .ofs)), .fumount [[0x48, 0x4f, 0x30, 0x3a]] ejects]

namespace System.Kept

variable {s : System Image}

theorem wasStarted_eq (hs : s.Kept) (unit : Fin 8) :
    wasStarted (s.endpoints unit) (unitLabel unit) true = decide (unitLabel unit ∈ s.mounts) := by
  rw [hs.started unit]
  by_cases h : unitLabel unit ∈ s.mounts
  · rw [if_pos h, wasStarted_unitLabel, decide_eq_true h]
  · rw [if_neg h, decide_eq_false h]
    rfl

/-- The handler is started when it has not been, and the file says so. -/
theorem starts (hs : s.Kept) {a : FmountAnswers Image} (ha : a.Works) {unit : Fin 8} {s₁ s' : System Image}
    (hendpoints : s₁.endpoints = s.endpoints) (hmounts : s₁.mounts = s.mounts) (h : Starts a unit (unitLabel unit) s₁ s') :
    s'.logical = s₁.logical ∧ s'.mounts.Nodup ∧ unitLabel unit ∈ s'.mounts ∧ s.mounts ⊆ s'.mounts ∧
      ∀ unit', s'.endpoints unit' = if unitLabel unit' ∈ s'.mounts then some (unitLabel unit') else none := by
  have heq := hs.wasStarted_eq unit
  cases h with
  | before h =>
    rw [ha.readStarted, hendpoints, heq, decide_eq_true_eq] at h
    rw [hmounts, hendpoints]
    exact ⟨rfl, hs.once, h, List.Subset.refl _, hs.started⟩
  | now h =>
    rw [ha.readStarted, hendpoints, heq, decide_eq_false_iff_not] at h
    rw [ha.writeStarted]
    unfold System.launch
    dsimp only
    rw [hmounts, hendpoints]
    refine ⟨rfl, ?_, List.mem_append_right _ (List.mem_singleton_self _), List.subset_append_left _ _, ?_⟩
    · rw [List.nodup_append]
      refine ⟨hs.once, List.nodup_singleton _, ?_⟩
      rintro label hlabel _ hmem rfl
      cases List.mem_singleton.1 hmem
      exact h hlabel
    · intro unit'
      by_cases hne : unit' = unit
      · subst hne
        rw [Function.update_self, if_pos (List.mem_append_right _ (List.mem_singleton_self _))]
        rfl
      · have hother : unitLabel unit' ∉ [unitLabel unit] := by
          intro hmem
          exact hne (unitLabel_inj (List.mem_singleton.1 hmem))
        rw [Function.update_of_ne hne, hs.started unit']
        simp [hother]

theorem loaded_eq (hs : s.Kept) (index : Fin 2) (unit : Fin 8) :
    loaded (s.logical index) true = some (unit, unitLabel unit) ↔ s.logical index = some (unitLabel unit) := by
  cases h : s.logical index with
  | none => simp [loaded_none]
  | some label =>
    obtain ⟨unit', rfl, -, -⟩ := hs.logical index label h
    rw [loaded_unitLabel]
    constructor
    · intro heq
      cases heq
      rfl
    · intro heq
      cases unitLabel_inj (Option.some_inj.1 heq)
      rfl

end System.Kept

/-- The logical units are written down by the labels of their own endpoints. -/
def System.Logical (s : System Image) : Prop :=
  ∀ index label, s.logical index = some label → ∃ unit, label = unitLabel unit ∧ logicalOf unit = index

theorem clear_logical (s : System Image) (index : Fin 2) :
    (s.clear index true).logical = Function.update s.logical index none := rfl

theorem clearMatching_logical {s : System Image} (hs : s.Logical) {a : FumountAnswers} (ha : a.Works) (unit : Fin 8) (index : Fin 2) :
    (s.clearMatching a (unitLabel unit) index).logical =
      Function.update s.logical index (if s.logical index = some (unitLabel unit) then none else s.logical index) := by
  unfold System.clearMatching
  rw [ha.readLogical, ha.delete]
  cases h : s.logical index with
  | none =>
    rw [loaded_none, if_neg (by simp), if_neg (by simp), ← h, Function.update_eq_self]
  | some label =>
    obtain ⟨unit', rfl, -⟩ := hs index label h
    rw [loaded_unitLabel, Option.map_some]
    by_cases heq : unit' = unit
    · subst heq
      rw [if_pos rfl, if_pos rfl, clear_logical]
    · have hstem : (unitLabel unit').take 3 ≠ (unitLabel unit).take 3 := fun h => heq (unitLabel_stem _ _ h)
      have hlabel : unitLabel unit' ≠ unitLabel unit := fun h => heq (unitLabel_inj h)
      rw [if_neg (by simpa using hstem), if_neg (by simpa using hlabel), ← h, Function.update_eq_self]

/-- After an eject no logical unit is written down for the unit, and the others as before. -/
theorem forget_logical {s : System Image} (hs : s.Logical) {a : FumountAnswers} (ha : a.Works) (unit : Fin 8)
    {logicalUnit : Option (Fin 2)} (hunit : ∀ index, logicalUnit = some index → s.logical index = some (unitLabel unit)) (index : Fin 2) :
    (s.forget a logicalUnit (unitLabel unit)).logical index =
      if s.logical index = some (unitLabel unit) then none else s.logical index := by
  cases logicalUnit with
  | some index' =>
    have hrecord := hunit index' rfl
    unfold System.forget
    dsimp only
    rw [ha.delete, clear_logical]
    by_cases heq : index = index'
    · subst heq
      rw [Function.update_self, if_pos hrecord]
    · rw [Function.update_of_ne heq, if_neg]
      intro h
      obtain ⟨unit₁, h₁, rfl⟩ := hs index _ h
      obtain ⟨unit₂, h₂, rfl⟩ := hs index' _ hrecord
      cases unitLabel_inj (h₁.symm.trans h₂)
      exact heq rfl
  | none =>
    have hfirst := clearMatching_logical hs ha unit 0
    have hs' : (s.clearMatching a (unitLabel unit) 0).Logical := by
      intro index label h
      rw [hfirst, Function.update_apply] at h
      split_ifs at h
      · exact hs _ label (by rwa [‹index = 0›])
      · exact hs index label h
    have hboth : s.forget a none (unitLabel unit) = (s.clearMatching a (unitLabel unit) 0).clearMatching a (unitLabel unit) 1 := rfl
    rw [hboth, clearMatching_logical hs' ha unit 1, hfirst]
    revert index
    rw [Fin.forall_fin_two]
    constructor
    · rw [Function.update_of_ne (by decide), Function.update_self]
    · rw [Function.update_self, Function.update_of_ne (by decide)]

theorem System.Kept.written {s : System Image} (hs : s.Kept) : s.Logical := by
  intro index label h
  obtain ⟨unit, hlabel, hunit, -⟩ := hs.logical index label h
  exact ⟨unit, hlabel, hunit⟩

theorem isSome_update {media : Fin 8 → Option (Medium Image)} {unit unit' : Fin 8} {m : Medium Image} (h : (media unit').isSome) :
    (Function.update media unit (some m) unit').isSome := by
  rw [Function.update_apply]
  split_ifs
  · rfl
  · exact h

/-- The state after a mount: the unit has its media and its handler, and a logical unit is written down. -/
theorem mounted_kept {s : System Image} (hs : s.Kept) {a : FmountAnswers Image} (ha : a.Works) {target : Target} {unit : Fin 8}
    {m : Medium Image} {s' : System Image} (htarget : ∀ index, target = .logical index → logicalOf unit = index)
    (hstarts : Starts a unit (unitLabel unit) (s.insert unit m) s') :
    (s'.record target (unitLabel unit) a.writeLogical).Kept := by
  obtain ⟨hlogical, honce, hmem, hsubset, hstarted⟩ :=
    hs.starts ha (show (s.insert unit m).endpoints = s.endpoints from rfl) rfl hstarts
  have hmedia : s'.media = Function.update s.media unit (some m) := hstarts.media
  have hs' : s'.logical = s.logical := hlogical
  have hready : ∀ unit', (s'.media unit').isSome → unitLabel unit' ∈ s'.mounts := by
    intro unit' h
    by_cases heq : unit' = unit
    · rw [heq]
      exact hmem
    · rw [hmedia, Function.update_of_ne heq] at h
      exact hsubset (hs.ready unit' h)
  have hold : ∀ index label, s'.logical index = some label →
      ∃ unit', label = unitLabel unit' ∧ logicalOf unit' = index ∧ (s'.media unit').isSome := by
    intro index label h
    rw [hs'] at h
    obtain ⟨unit', hlabel, hunit, hsome⟩ := hs.logical index label h
    rw [hmedia]
    exact ⟨unit', hlabel, hunit, isSome_update hsome⟩
  cases target with
  | endpoint e => exact ⟨honce, hstarted, hready, hold⟩
  | logical index =>
    refine ⟨honce, hstarted, hready, ?_⟩
    intro index' label h
    unfold System.record at h
    dsimp only at h
    rw [ha.writeLogical] at h
    by_cases heq : index' = index
    · subst heq
      rw [Function.update_self] at h
      cases h
      refine ⟨unit, rfl, htarget _ rfl, ?_⟩
      unfold System.record
      rw [hmedia, Function.update_self]
      rfl
    · rw [Function.update_of_ne heq] at h
      exact hold index' label h

theorem fmounts_kept {args : List (List Byte)} {a : FmountAnswers Image} {s s' : System Image} {exit : FmountExit}
    (hs : s.Kept) (ha : a.Works) (h : Fmounts lib args a s exit s') : s'.Kept := by
  cases h with
  | cannotStart target m e h hselects hmount hstarted hexecute =>
    rw [ha.execute] at hexecute
    cases hexecute
  | mounted target m e s₁ h hselects hmount hstarts =>
    have hlabel := hselects.label h
    have htarget : ∀ index, target = .logical index → logicalOf e.unit = index := by
      rintro index rfl
      generalize e.profile = profile, e.dostype = dostype at hselects
      cases hselects
      exact (endpointForMedia_label index profile dostype).2
    rw [hlabel] at hstarts ⊢
    exact mounted_kept hs ha htarget hstarts
  | _ => exact hs

theorem fumounts_kept {args : List (List Byte)} {a : FumountAnswers} {s s' : System Image} {exit : FumountExit}
    (hs : s.Kept) (ha : a.Works) (h : Fumounts args a s exit s') : s'.Kept := by
  cases h with
  | usage h => exact hs
  | unit logicalUnit unit label hunit exit s' hejects =>
    cases hejects with
    | ejected =>
      cases fumountUnit_label hunit
      obtain ⟨hmedia, hendpoints, hmounts⟩ := forget_keeps (s.remove unit) a logicalUnit (unitLabel unit)
      have hrecord : ∀ index, logicalUnit = some index → (s.remove unit).logical index = some (unitLabel unit) := by
        rintro index rfl
        have hloaded := fumountUnit_logical hunit
        rw [ha.readLogical] at hloaded
        exact (hs.loaded_eq index unit).1 hloaded
      have hlogical := forget_logical (s := s.remove unit) hs.written ha unit hrecord
      refine ⟨?_, ?_, ?_, ?_⟩
      · rw [hmounts]
        exact hs.once
      · rw [hmounts, hendpoints]
        exact hs.started
      · intro unit' h
        rw [hmedia] at h
        rw [hmounts]
        apply hs.ready
        unfold System.remove at h
        dsimp only at h
        rw [Function.update_apply] at h
        split_ifs at h
        · cases h
        · exact h
      · intro index label h
        rw [hlogical] at h
        split_ifs at h with hne
        obtain ⟨unit', rfl, hunit', hsome⟩ := hs.logical index label h
        refine ⟨unit', rfl, hunit', ?_⟩
        have hother : unit' ≠ unit := by
          rintro rfl
          exact hne h
        rw [hmedia]
        unfold System.remove
        dsimp only
        rw [Function.update_of_ne hother]
        exact hsome
    | _ => exact hs

/-- In every run in which the files in T: and C:Mount work, whatever else fails: each handler is
started once, no unit has media without its handler, and a logical unit is written down only
as one of its own endpoints, with media in it. -/
theorem files_kept (lib : Support Image) (events : List (Event Image)) (hworks : ∀ e ∈ events, e.Works) :
    (steps lib events .boot).map Step.event = events ∧ ∀ st ∈ steps lib events .boot, st.after.Kept := by
  have hkept : (steps lib events .boot).map Step.event = events ∧ ∀ st ∈ steps lib events .boot, st.after.Kept ∧ True := by
    apply steps_keep
    · intro e he s hs
      have hw := hworks e he
      apply exec_wp
      · rintro args a exit s' rfl h
        exact ⟨fmounts_kept hs hw h, trivial⟩
      · rintro args a exit s' rfl h
        exact ⟨fumounts_kept hs hw h, trivial⟩
    · refine ⟨List.nodup_nil, ?_, ?_, ?_⟩
      · intro unit
        rfl
      · intro unit h
        cases h
      · intro index label h
        cases h
  exact ⟨hkept.1, fun st hst => (hkept.2 st hst).1⟩

theorem granted_works (image : Profile × DosType) : (granted image).Works := ⟨rfl, rfl, rfl, rfl, rfl⟩

theorem ejects_works : ejects.Works := ⟨fun _ => rfl, fun _ => rfl⟩

theorem swap_works (e : Event (Profile × DosType)) (he : e ∈ swap) : e.Works := by
  simp only [swap, List.mem_cons, List.not_mem_nil, or_false] at he
  rcases he with rfl | rfl | rfl | rfl | rfl
  · exact granted_works _
  · exact granted_works _
  · exact ejects_works
  · exact granted_works _
  · exact ejects_works

theorem files_kept_swap : (steps kindSupport swap .boot).map Step.event = swap ∧
    ∀ st ∈ steps kindSupport swap .boot, st.after.Kept :=
  files_kept kindSupport swap swap_works

end NioApps.Kick13
