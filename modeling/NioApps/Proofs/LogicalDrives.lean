import NioApps.Proofs.EndpointRuns

/-! FMOUNT and FUMOUNT refine the two drives: with logical units only, and with T: and
C:Mount working, the programs end as the drives say. -/

namespace NioApps.Kick13

open Abort Commands

variable {Image : Type} {lib : Support Image}

/-! ### Labels of drives -/

theorem Support.endpoint_label {index : Fin 2} {image : Image} {e : Endpoint} (h : lib.endpoint index image = some e) :
    e.label = unitLabel e.unit ∧ logicalOf e.unit = index := by
  unfold Support.endpoint at h
  obtain ⟨profile, -, h⟩ := Option.bind_eq_some_iff.1 h
  obtain ⟨dostype, -, h⟩ := Option.bind_eq_some_iff.1 h
  cases h
  exact endpointForMedia_label index profile dostype

theorem Support.endpoint_eq {index : Fin 2} {image : Image} {profile : Profile} {dostype : DosType}
    (hprofile : lib.classifyMediaProfile image = some profile) (hdostype : lib.classifyFilesystem image = some dostype) :
    lib.endpoint index image = some (endpointForMedia index profile dostype) := by
  rw [Support.endpoint, hprofile, hdostype]
  rfl

namespace Drives

variable {d : Drives Image}

theorem label_some {index : Fin 2} {label : List Byte} (h : d.label lib index = some label) :
    ∃ m e, d index = some m ∧ lib.endpoint index m.image = some e ∧ label = unitLabel e.unit ∧ logicalOf e.unit = index := by
  obtain ⟨m, hm, h⟩ := Option.bind_eq_some_iff.1 h
  obtain ⟨e, he, rfl⟩ := Option.map_eq_some_iff.1 h
  exact ⟨m, e, hm, he, Support.endpoint_label he⟩

theorem label_update_some (index : Fin 2) (m : Medium Image) :
    label lib (Function.update d index (some m)) index = (lib.endpoint index m.image).map Endpoint.label := by
  rw [label, Function.update_self, Option.bind_some]

theorem label_update_none (index : Fin 2) : label lib (Function.update d index none) index = none := by
  rw [label, Function.update_self, Option.bind_none]

theorem label_update_of_ne {index index' : Fin 2} (h : index' ≠ index) (o : Option (Medium Image)) :
    label lib (Function.update d index o) index' = label lib d index' := by
  rw [label, Function.update_of_ne h, label]

end Drives

namespace Shows

variable {s : System Image} {d : Drives Image}

theorem written (hs : Shows lib s d) : s.Logical := by
  intro index label h
  rw [hs.logical] at h
  obtain ⟨m, e, -, -, hlabel, hindex⟩ := Drives.label_some h
  exact ⟨e.unit, hlabel, hindex⟩

theorem logged_eq (hs : Shows lib s d) (index : Fin 2) : logged (s.logical index) true = d.label lib index := by
  rw [hs.logical]
  cases h : d.label lib index with
  | none => rfl
  | some label =>
    obtain ⟨m, e, -, -, rfl, -⟩ := Drives.label_some h
    exact logged_unitLabel e.unit

theorem loaded_eq (hs : Shows lib s d) (index : Fin 2) :
    loaded (s.logical index) true =
      ((d index).bind fun m => lib.endpoint index m.image).map fun e => (e.unit, unitLabel e.unit) := by
  rw [hs.logical]
  cases hm : d index with
  | none => rw [Drives.label, hm, Option.bind_none, Option.bind_none, loaded_none, Option.map_none]
  | some m =>
    rw [Drives.label, hm, Option.bind_some, Option.bind_some]
    cases he : lib.endpoint index m.image with
    | none => rw [Option.map_none, Option.map_none, loaded_none]
    | some e =>
      rw [Option.map_some, (Support.endpoint_label he).1, loaded_unitLabel, Option.map_some]

/-- A mount into a free drive. -/
theorem insert (hs : Shows lib s d) {index : Fin 2} {m : Medium Image} {e : Endpoint} (he : lib.endpoint index m.image = some e)
    (hfree : d.label lib index = none) {s' : System Image} (hmedia : s'.media = Function.update s.media e.unit (some m))
    (hlogical : s'.logical = Function.update s.logical index (some e.label)) :
    Shows lib s' (Function.update d index (some m)) := by
  obtain ⟨hlabel, hindex⟩ := Support.endpoint_label he
  have hself : Drives.label lib (Function.update d index (some m)) index = some (unitLabel e.unit) := by
    rw [Drives.label_update_some, he, Option.map_some, hlabel]
  refine ⟨?_, ?_, ?_⟩
  · intro index' m' h
    by_cases heq : index' = index
    · subst heq
      rw [Function.update_self] at h
      cases h
      rw [he]
      rfl
    · rw [Function.update_of_ne heq] at h
      exact hs.suits index' m' h
  · intro unit
    rw [hmedia]
    by_cases hunit : unit = e.unit
    · rw [hunit, Function.update_self, hindex, hself, if_pos rfl, Function.update_self]
    rw [Function.update_of_ne hunit, hs.media]
    by_cases heq : logicalOf unit = index
    · -- the drive was free, and its media are not in this unit now
      rw [heq, hself, hfree, if_neg (by simp), if_neg]
      intro h
      exact hunit (unitLabel_inj (Option.some_inj.1 h)).symm
    · rw [Drives.label_update_of_ne heq, Function.update_of_ne heq]
  · intro index'
    rw [hlogical]
    by_cases heq : index' = index
    · subst heq
      rw [Function.update_self, hself, hlabel]
    · rw [Function.update_of_ne heq, Drives.label_update_of_ne heq, hs.logical]

/-- An eject, which may be of a unit that serves no drive. -/
theorem remove (hs : Shows lib s d) (unit : Fin 8) {s' : System Image} (hmedia : s'.media = Function.update s.media unit none)
    (hlogical : ∀ index, s'.logical index = if s.logical index = some (unitLabel unit) then none else s.logical index) :
    Shows lib s' (if d.label lib (logicalOf unit) = some (unitLabel unit) then Function.update d (logicalOf unit) none else d) := by
  have hother : ∀ index, index ≠ logicalOf unit → d.label lib index ≠ some (unitLabel unit) := by
    intro index hne h
    obtain ⟨m, e, -, -, hlabel, hindex⟩ := Drives.label_some h
    cases unitLabel_inj hlabel
    exact hne hindex.symm
  by_cases hserves : d.label lib (logicalOf unit) = some (unitLabel unit)
  · rw [if_pos hserves]
    refine ⟨?_, ?_, ?_⟩
    · intro index m h
      rw [Function.update_apply] at h
      split_ifs at h
      exact hs.suits index m h
    · intro unit'
      rw [hmedia]
      by_cases heq : logicalOf unit' = logicalOf unit
      · rw [heq, Drives.label_update_none, if_neg (by simp)]
        by_cases hunit : unit' = unit
        · rw [hunit, Function.update_self]
        · rw [Function.update_of_ne hunit, hs.media, heq, hserves, if_neg]
          intro h
          exact hunit (unitLabel_inj (Option.some_inj.1 h)).symm
      · have hunit : unit' ≠ unit := fun h => heq (congrArg logicalOf h)
        rw [Function.update_of_ne hunit, Drives.label_update_of_ne heq, Function.update_of_ne heq, hs.media]
    · intro index
      rw [hlogical, hs.logical]
      by_cases heq : index = logicalOf unit
      · rw [heq, if_pos hserves, Drives.label_update_none]
      · rw [if_neg (hother index heq), Drives.label_update_of_ne heq]
  · rw [if_neg hserves]
    refine ⟨hs.suits, ?_, ?_⟩
    · intro unit'
      rw [hmedia]
      by_cases hunit : unit' = unit
      · rw [hunit, Function.update_self, if_neg hserves]
      · rw [Function.update_of_ne hunit, hs.media]
    · intro index
      rw [hlogical, hs.logical, if_neg]
      by_cases heq : index = logicalOf unit
      · rw [heq]
        exact hserves
      · exact hother index heq

end Shows

/-! ### FMOUNT -/

section Fmount

variable {args : List (List Byte)} {a : FmountAnswers Image} {s s' : System Image} {d : Drives Image} {index : Fin 2}
  {slot : Byte} {readonly : Bool} {m : Medium Image} {profile : Profile} {dostype : DosType}

theorem target_logical {target : Target} (hdrive : ∀ arg ∈ args.tail, parseEndpoint arg = none)
    (hoptions : parseOptions args.tail = some ⟨some target, readonly⟩) : ∃ index, target = .logical index := by
  apply parseOptions_target (P := fun target => ∃ index, target = .logical index) _ _ hoptions
  · intro arg harg e he
    rw [hdrive arg harg] at he
    cases he
  · intro index
    exact ⟨index, rfl⟩

theorem fmount_eq_mount (hslot : kick13Main args = .slot slot)
    (hoptions : parseOptions args.tail = some ⟨some (.logical index), readonly⟩) :
    Drives.fmount lib d args a = Drives.mount lib d a slot index readonly := by
  rw [Drives.fmount, hslot, hoptions]

/-- An image that is found: what the drive does with it. -/
theorem mount_asked (h : Asks lib args a (.logical index) m profile dostype) :
    Drives.fmount lib d args a =
      match d.label lib index with
      | some label => (.occupied index label, d)
      | none =>
        if a.reopens = false then (.cannotOpen, d)
        else if a.mount ≠ 0 then (.mountFailed a.mount, d)
        else (.mounted m.slot (endpointForMedia index profile dostype).label profile dostype, Function.update d index (some m)) := by
  obtain ⟨hprofile, hdostype⟩ := endpointForMedia_kind index profile dostype
  rw [fmount_eq_mount h.slot h.options, Drives.mount, h.opens, h.image, Option.bind_some,
    Support.endpoint_eq h.profile h.dostype, Option.map_some]
  dsimp only
  rewrite [hprofile, hdostype, Bool.not_not]
  rfl

/-- What is mounted is the endpoint for the media of the drive. -/
theorem selects_logical (hselects : Selects a s profile dostype (.logical index) e) :
    e = endpointForMedia index profile dostype ∧ logged (s.logical index) a.readLogical = none ∧ a.reopens = true := by
  cases hselects with
  | logical _ hfree hreopens => exact ⟨rfl, hfree, hreopens⟩

theorem fmount_refines (ha : a.Works) (hdrive : ∀ arg ∈ args.tail, parseEndpoint arg = none) (hs : Shows lib s d)
    {exit : FmountExit} (h : Fmounts lib args a s exit s') :
    ∃ d', Drives.fmount lib d args a = (exit, d') ∧ Shows lib s' d' := by
  have hlogged : ∀ index, logged (s.logical index) a.readLogical = d.label lib index := by
    intro index
    rw [ha.readLogical]
    exact hs.logged_eq index
  cases h with
  | usage h =>
    refine ⟨d, ?_, hs⟩
    rw [Drives.fmount, h]
  | badSlot h =>
    refine ⟨d, ?_, hs⟩
    rw [Drives.fmount, h]
  | badOption slot h hoptions =>
    refine ⟨d, ?_, hs⟩
    rw [Drives.fmount, h, hoptions]
  | noTarget slot readonly h hoptions =>
    refine ⟨d, ?_, hs⟩
    rw [Drives.fmount, h, hoptions]
  | cannotOpen slot target readonly h hoptions hopens =>
    obtain ⟨index, rfl⟩ := target_logical hdrive hoptions
    refine ⟨d, ?_, hs⟩
    rw [fmount_eq_mount h hoptions, Drives.mount, hopens]
  | unsupported slot target readonly h hoptions hopens himage =>
    obtain ⟨index, rfl⟩ := target_logical hdrive hoptions
    have hnone : (a.image.bind fun image => (lib.endpoint index image).map fun e => (image, e)) = none := by
      cases hi : a.image with
      | none => rfl
      | some image =>
        rw [Option.bind_some, Support.endpoint]
        rcases himage image hi with h | h
        · rw [h]
          rfl
        · rw [h]
          cases lib.classifyMediaProfile image <;> rfl
    refine ⟨d, ?_, hs⟩
    rw [fmount_eq_mount h hoptions, Drives.mount, hopens, hnone]
  | occupied index m profile dostype label h hlabel =>
    rw [hlogged] at hlabel
    refine ⟨d, ?_, hs⟩
    rw [mount_asked h, hlabel]
  | cannotReopen index m profile dostype h hfree hreopens =>
    rw [hlogged] at hfree
    refine ⟨d, ?_, hs⟩
    rw [mount_asked h, hfree]
    exact if_pos hreopens
  | mismatch target m profile dostype e h hselects hkind =>
    obtain ⟨index, rfl⟩ := target_logical hdrive h.options
    obtain ⟨rfl, -, -⟩ := selects_logical hselects
    obtain ⟨hprofile, hdostype⟩ := endpointForMedia_kind index profile dostype
    rcases hkind with hkind | hkind
    · exact absurd hprofile.symm hkind
    · exact absurd hdostype.symm hkind
  | mountFailed target m e h hselects hmount =>
    obtain ⟨index, rfl⟩ := target_logical hdrive h.options
    obtain ⟨-, hfree, hreopens⟩ := selects_logical hselects
    rw [hlogged] at hfree
    refine ⟨d, ?_, hs⟩
    rw [mount_asked h, hfree]
    dsimp only
    rw [if_neg (by rw [hreopens]; decide), if_pos hmount]
  | cannotStart target m e h hselects hmount hstarted hexecute =>
    rw [ha.execute] at hexecute
    cases hexecute
  | mounted target m e s₁ h hselects hmount hstarts =>
    obtain ⟨index, rfl⟩ := target_logical hdrive h.options
    obtain ⟨he, hfree, hreopens⟩ := selects_logical hselects
    rw [hlogged] at hfree
    have hlogical : s₁.logical = s.logical := by
      cases hstarts <;> rfl
    have hlabel : e.label.take 4 = e.label := by
      rw [hselects.label h]
      rfl
    refine ⟨Function.update d index (some m), ?_, ?_⟩
    · rw [mount_asked h, hfree]
      dsimp only
      rw [if_neg (by rw [hreopens]; decide), if_neg (by rw [hmount]; decide), ← he]
    · apply hs.insert (e := e) _ hfree
      · rw [record_media, hstarts.media]
        rfl
      · unfold System.record
        dsimp only
        rw [ha.writeLogical, hlogical]
        unfold written
        dsimp only
        rw [hlabel]
      · rw [Support.endpoint_eq h.profile h.dostype, ← he]

end Fmount

/-! ### FUMOUNT -/

section Fumount

variable {args : List (List Byte)} {a : FumountAnswers} {s s' : System Image} {d : Drives Image}

theorem eject_refines (ha : a.Works) (hs : Shows lib s d) {logicalUnit : Option (Fin 2)} {unit : Fin 8}
    (hunit : ∀ index, logicalUnit = some index → s.logical index = some (unitLabel unit)) {exit : FumountExit}
    (h : Ejects a s logicalUnit unit (unitLabel unit) exit s') :
    ∃ d', Drives.eject lib d a (logicalOf unit) unit = (exit, d') ∧ Shows lib s' d' := by
  unfold Drives.eject
  cases h with
  | noPort h => exact ⟨d, if_pos h, hs⟩
  | noRequest hport h =>
    rw [if_neg (by rw [hport]; decide), if_pos h]
    exact ⟨d, rfl, hs⟩
  | cannotOpen hport hrequest h =>
    rw [if_neg (by rw [hport]; decide), if_neg (by rw [hrequest]; decide), if_pos h]
    exact ⟨d, rfl, hs⟩
  | ejectFailed hport hrequest hopens h =>
    rw [if_neg (by rw [hport]; decide), if_neg (by rw [hrequest]; decide), if_neg (by rw [hopens]; decide), if_pos h]
    exact ⟨d, rfl, hs⟩
  | ejected hport hrequest hopens heject =>
    rw [if_neg (by rw [hport]; decide), if_neg (by rw [hrequest]; decide), if_neg (by rw [hopens]; decide),
      if_neg (by rw [heject]; decide)]
    refine ⟨_, rfl, ?_⟩
    apply hs.remove unit
    · exact (forget_keeps (s.remove unit) a logicalUnit (unitLabel unit)).1
    · exact forget_logical (s := s.remove unit) hs.written ha unit hunit

theorem fumount_refines (ha : a.Works) (hs : Shows lib s d) {exit : FumountExit} (h : Fumounts args a s exit s') :
    ∃ d', Drives.fumount lib d args a = (exit, d') ∧ Shows lib s' d' := by
  rcases args with _ | ⟨arg, _ | ⟨second, rest⟩⟩
  · cases h with
    | usage => exact ⟨d, rfl, hs⟩
    | unit _ _ _ hunit => cases hunit
  · cases h with
    | usage h =>
      refine ⟨d, ?_, hs⟩
      simp only [fumountUnit] at h
      simp only [Drives.fumount]
      by_cases hq : arg.head? = some 0x3f
      · rw [if_pos hq]
      rw [if_neg hq] at h ⊢
      cases hlogical : parseLogicalUnit arg with
      | some index =>
        simp only [hlogical] at h
        rw [Option.map_eq_none_iff, ha.readLogical, hs.loaded_eq, Option.map_eq_none_iff] at h
        simp only [h]
      | none =>
        simp only [hlogical] at h
        rw [Option.map_eq_none_iff, parseEndpointName_eq, Option.map_eq_none_iff] at h
        simp only [h]
    | unit logicalUnit unit label hunit exit s' hejects =>
      have hstatic := fumountUnit_label hunit
      rw [hstatic] at hejects
      have hrecord : ∀ index, logicalUnit = some index → s.logical index = some (unitLabel unit) := by
        rintro index rfl
        have hloaded := fumountUnit_logical hunit
        rw [ha.readLogical, hs.logical] at hloaded
        cases hlabel : d.label lib index with
        | none =>
          rw [hlabel, loaded_none] at hloaded
          cases hloaded
        | some label =>
          obtain ⟨m, e, -, -, rfl, -⟩ := Drives.label_some hlabel
          rw [hlabel, loaded_unitLabel] at hloaded
          cases hloaded
          rw [hs.logical, hlabel]
      have hejected := eject_refines ha hs hrecord hejects
      simp only [fumountUnit] at hunit
      simp only [Drives.fumount]
      split_ifs at hunit with hq
      rw [if_neg hq]
      cases hlogical : parseLogicalUnit arg with
      | some index =>
        simp only [hlogical] at hunit
        obtain ⟨found, hload, heq⟩ := Option.map_eq_some_iff.1 hunit
        rw [ha.readLogical, hs.loaded_eq] at hload
        obtain ⟨e, he, rfl⟩ := Option.map_eq_some_iff.1 hload
        cases heq
        obtain ⟨m, -, hm⟩ := Option.bind_eq_some_iff.1 he
        obtain ⟨-, hindex⟩ := Support.endpoint_label hm
        rw [hindex] at hejected
        simp only [he]
        exact hejected
      | none =>
        simp only [hlogical] at hunit
        obtain ⟨found, hname, heq⟩ := Option.map_eq_some_iff.1 hunit
        rw [parseEndpointName_eq] at hname
        obtain ⟨e, he, rfl⟩ := Option.map_eq_some_iff.1 hname
        cases heq
        simp only [he]
        exact hejected
  · cases h with
    | usage => exact ⟨d, rfl, hs⟩
    | unit _ _ _ hunit => cases hunit

end Fumount

/-! ### Runs -/

theorem exec_refines {e : Event Image} (hworks : e.Works) (hdrive : e.ByDrive) {s : System Image} {d : Drives Image}
    (hs : Shows lib s d) :
    wp (e.exec lib) (fun exit s' => ∃ d', Drives.exec lib d e = (exit, d') ∧ Shows lib s' d') (fun _ => False) s := by
  apply exec_wp
  · rintro args a exit s' rfl h
    obtain ⟨d', heq, hs'⟩ := fmount_refines hworks hdrive hs h
    refine ⟨d', ?_, hs'⟩
    rw [Drives.exec, heq]
    rfl
  · rintro args a exit s' rfl h
    obtain ⟨d', heq, hs'⟩ := fumount_refines hworks hs h
    refine ⟨d', ?_, hs'⟩
    rw [Drives.exec, heq]
    rfl

theorem finalState_cons {e : Event Image} {es : List (Event Image)} {s s' : System Image} {exit : Exit}
    (h : (e.exec lib).run s = .ok exit s') : finalState lib (e :: es) s = finalState lib es s' := by
  unfold finalState
  rw [steps, h]
  dsimp only
  rw [List.getLast?_cons]
  cases hlast : (steps lib es s').getLast? with
  | none => rfl
  | some st => rfl

theorem session_refines {events : List (Event Image)} (hworks : ∀ e ∈ events, e.Works) (hdrive : ∀ e ∈ events, e.ByDrive)
    {s : System Image} {d : Drives Image} (hs : Shows lib s d) :
    (steps lib events s).map Step.exit = (Drives.session lib events d).1 ∧
      Shows lib (finalState lib events s) (Drives.session lib events d).2 := by
  induction events generalizing s d with
  | nil => exact ⟨rfl, hs⟩
  | cons e es ih =>
    obtain ⟨exit, s', hrun, d', hexec, hs'⟩ := (exec_refines (hworks e List.mem_cons_self) (hdrive e List.mem_cons_self) hs).returns
    obtain ⟨hexits, hfinal⟩ := ih (fun e' he' => hworks e' (List.mem_cons_of_mem _ he'))
      (fun e' he' => hdrive e' (List.mem_cons_of_mem _ he')) hs'
    have hsession : Drives.session lib (e :: es) d = (exit :: (Drives.session lib es d').1, (Drives.session lib es d').2) := by
      rw [Drives.session, hexec]
      rfl
    rw [hsession, finalState_cons hrun]
    constructor
    · rw [steps, hrun]
      dsimp only
      rw [List.map_cons, hexits]
    · exact hfinal

/-- Asked for logical units, with T: and C:Mount working, the programs end as two drives would
that take any kind of media, and the eight units show what is in these drives. -/
theorem drives_refined (lib : Support Image) (events : List (Event Image)) (hworks : ∀ e ∈ events, e.Works)
    (hdrive : ∀ e ∈ events, e.ByDrive) :
    (steps lib events .boot).map Step.exit = (Drives.session lib events fun _ => none).1 ∧
      Shows lib (finalState lib events .boot) (Drives.session lib events fun _ => none).2 := by
  apply session_refines hworks hdrive
  refine ⟨?_, ?_, ?_⟩
  · intro index m h
    cases h
  · intro unit
    exact (if_neg (by rw [Drives.label, Option.bind_none]; simp)).symm
  · intro index
    rfl

theorem swap_byDrive (e : Event (Profile × DosType)) (he : e ∈ swap) : e.ByDrive := by
  simp only [swap, List.mem_cons, List.not_mem_nil, or_false] at he
  rcases he with rfl | rfl | rfl | rfl | rfl
  · unfold Event.ByDrive
    decide
  · unfold Event.ByDrive
    decide
  · trivial
  · unfold Event.ByDrive
    decide
  · trivial

theorem drives_refined_swap :
    (steps kindSupport swap .boot).map Step.exit = (Drives.session kindSupport swap fun _ => none).1 ∧
      Shows kindSupport (finalState kindSupport swap .boot) (Drives.session kindSupport swap fun _ => none).2 :=
  drives_refined kindSupport swap swap_works swap_byDrive

example : (Drives.session kindSupport swap fun _ => none).1 =
    [.fmount (.mounted 5 (unitLabel 0) .ddAdf .ffs), .fmount (.occupied 0 (unitLabel 0)), .fumount (.ejected (unitLabel 0)),
      .fmount (.mounted 6 (unitLabel 6) .hdAdf .ofs), .fumount (.ejected (unitLabel 6))] := by
  decide

end NioApps.Kick13
