import NioApps.Spec.LogicalDrives

/-! The names of the static endpoints, and every way in which FMOUNT and FUMOUNT can end. -/

namespace NioApps.Kick13

open Abort Commands

variable {Image : Type}

/-! ### Names -/

theorem unitLabel_colon (unit : Fin 8) : (unitLabel unit)[3]? = some 0x3a := rfl

/-- The three characters before the colon tell the endpoints apart. -/
theorem unitLabel_stem : ∀ unit unit' : Fin 8, (unitLabel unit).take 3 = (unitLabel unit').take 3 → unit = unit' := by
  decide

theorem unitLabel_inj {unit unit' : Fin 8} (h : unitLabel unit = unitLabel unit') : unit = unit' := by
  apply unitLabel_stem
  rw [h]

/-- A label is read back as its endpoint. -/
theorem parseEndpoint_unitLabel : ∀ unit : Fin 8, parseEndpoint (unitLabel unit) = some (staticEndpoint unit) := by
  decide

/-- The two versions of `parse_endpoint` agree. -/
theorem parseEndpointName_eq (s : List Byte) : parseEndpointName s = (parseEndpoint s).map fun e => (e.unit, e.label) := by
  unfold parseEndpointName parseEndpoint
  cases endpointName s with
  | none => rfl
  | some name =>
    obtain ⟨first, second, index⟩ := name
    simp only [Option.bind_eq_bind, Option.bind_some]
    split_ifs <;> rfl

theorem staticEndpoint_dn (index : Fin 2) (unit : Fin 8) (h : unit.val = index.val) :
    staticEndpoint unit = ⟨unit, labelOf 0x44 0x4e index, .ddAdf, .ffs⟩ := by
  revert index unit
  decide

theorem staticEndpoint_hn (index : Fin 2) (unit : Fin 8) (h : unit.val = 2 + index.val) :
    staticEndpoint unit = ⟨unit, labelOf 0x48 0x4e index, .hdAdf, .ffs⟩ := by
  revert index unit
  decide

theorem staticEndpoint_do (index : Fin 2) (unit : Fin 8) (h : unit.val = 4 + index.val) :
    staticEndpoint unit = ⟨unit, labelOf 0x44 0x4f index, .ddAdf, .ofs⟩ := by
  revert index unit
  decide

theorem staticEndpoint_ho (index : Fin 2) (unit : Fin 8) (h : unit.val = 6 + index.val) :
    staticEndpoint unit = ⟨unit, labelOf 0x48 0x4f index, .hdAdf, .ofs⟩ := by
  revert index unit
  decide

/-- A name that is accepted is that of a static endpoint. -/
theorem parseEndpoint_static {s : List Byte} {e : Endpoint} (h : parseEndpoint s = some e) : e = staticEndpoint e.unit := by
  unfold parseEndpoint at h
  obtain ⟨⟨first, second, index⟩, -, h⟩ := Option.bind_eq_some_iff.1 h
  dsimp only at h
  split_ifs at h with h₁ h₂ h₃ h₄
  · obtain ⟨rfl, rfl⟩ := h₁
    cases h
    exact (staticEndpoint_dn index _ rfl).symm
  · obtain ⟨rfl, rfl⟩ := h₂
    cases h
    exact (staticEndpoint_hn index _ rfl).symm
  · obtain ⟨rfl, rfl⟩ := h₃
    cases h
    exact (staticEndpoint_do index _ rfl).symm
  · obtain ⟨rfl, rfl⟩ := h₄
    cases h
    exact (staticEndpoint_ho index _ rfl).symm

theorem endpointForMedia_kind (index : Fin 2) (profile : Profile) (dostype : DosType) :
    (endpointForMedia index profile dostype).profile = profile ∧ (endpointForMedia index profile dostype).dostype = dostype := by
  unfold endpointForMedia
  split_ifs <;> exact ⟨rfl, rfl⟩

/-- Whatever the media are, the endpoint for a logical unit has the label of its unit. -/
theorem endpointForMedia_label (index : Fin 2) (profile : Profile) (dostype : DosType) :
    (endpointForMedia index profile dostype).label = unitLabel (endpointForMedia index profile dostype).unit ∧
      logicalOf (endpointForMedia index profile dostype).unit = index := by
  unfold endpointForMedia
  split_ifs <;> dsimp only <;> revert index <;> decide

/-- What holds of the endpoints named by the arguments and of the logical units holds of the target. -/
theorem parseOptions_target {P : Target → Prop} {args : List (List Byte)} {target : Target} {readonly : Bool}
    (hendpoint : ∀ arg ∈ args, ∀ e, parseEndpoint arg = some e → P (.endpoint e)) (hlogical : ∀ index, P (.logical index))
    (h : parseOptions args = some ⟨some target, readonly⟩) : P target := by
  have hfold : ∀ o : Options, (∀ target, o.target = some target → P target) →
      args.foldlM parseOption o = some ⟨some target, readonly⟩ → P target := by
    clear h
    induction args with
    | nil =>
      intro o ho h
      cases h
      exact ho target rfl
    | cons arg args ih =>
      intro o ho h
      rw [List.foldlM_cons] at h
      obtain ⟨o', hstep, hrest⟩ := Option.bind_eq_some_iff.1 h
      apply ih (fun arg' harg' => hendpoint arg' (List.mem_cons_of_mem _ harg')) o' _ hrest
      intro target' htarget
      unfold parseOption at hstep
      split at hstep
      next e he =>
        split_ifs at hstep
        cases hstep
        cases htarget
        exact hendpoint arg List.mem_cons_self e he
      next =>
        split at hstep
        next index hindex =>
          split_ifs at hstep
          cases hstep
          cases htarget
          exact hlogical index
        next =>
          split_ifs at hstep
          · cases hstep
            exact ho target' htarget
          · cases hstep
            exact ho target' htarget
  exact hfold ⟨none, false⟩ (fun _ h => nomatch h) h

theorem parseOptions_static {args : List (List Byte)} {e : Endpoint} {readonly : Bool}
    (h : parseOptions args = some ⟨some (.endpoint e), readonly⟩) : e = staticEndpoint e.unit := by
  refine parseOptions_target (P := fun target => ∀ e, target = .endpoint e → e = staticEndpoint e.unit) ?_ ?_ h e rfl
  · intro arg _ e' he' e heq
    cases heq
    exact parseEndpoint_static he'
  · intro index e heq
    cases heq

/-! ### The files -/

theorem readLabel_unitLabel (unit : Fin 8) : readLabel (some (unitLabel unit)) true = some (unitLabel unit) := rfl

theorem logged_unitLabel (unit : Fin 8) : logged (some (unitLabel unit)) true = some (unitLabel unit) := rfl

theorem wasStarted_unitLabel (unit : Fin 8) : wasStarted (some (unitLabel unit)) (unitLabel unit) true = true := by
  unfold wasStarted
  rw [readLabel_unitLabel, Option.any_some, unitLabel_colon]
  simp

theorem logicalUnitIsMounted_run (index : Fin 2) (answer : Bool) (s : System Image) :
    (logicalUnitIsMounted index answer).run s = .ok (logged (s.logical index) answer) s := by
  unfold logicalUnitIsMounted logged
  rw [run_bind_ok (show (get : Dos Image _).run s = .ok s s from rfl)]
  cases readLabel (s.logical index) answer with
  | none => rfl
  | some label =>
    by_cases h : label[3]? = some 0x3a
    · rw [Option.filter_some, if_pos (decide_eq_true h)]
      exact congrFun (congrArg EStateM.run (if_pos h)) s
    · rw [Option.filter_some, if_neg (by simpa using h)]
      exact congrFun (congrArg EStateM.run (if_neg h)) s

theorem endpointWasStarted_run (unit : Fin 8) (label : List Byte) (answer : Bool) (s : System Image) :
    (endpointWasStarted unit label answer).run s = .ok (wasStarted (s.endpoints unit) label answer) s := by
  unfold endpointWasStarted wasStarted
  rw [run_bind_ok (show (get : Dos Image _).run s = .ok s s from rfl)]
  cases readLabel (s.endpoints unit) answer <;> rfl

/-! ### FMOUNT -/

theorem startEndpoint_wp (a : FmountAnswers Image) (e : Endpoint) (s : System Image) :
    wp (startEndpoint a e)
      (fun goes s' => if goes = true then Starts a e.unit e.label s s'
        else s' = s ∧ wasStarted (s.endpoints e.unit) e.label a.readStarted = false ∧ a.execute = false)
      (fun _ => False) s := by
  unfold startEndpoint
  rw [wp_bind, wp_of_ok (endpointWasStarted_run _ _ _ s)]
  cases hstarted : wasStarted (s.endpoints e.unit) e.label a.readStarted with
  | true => exact .before hstarted
  | false =>
    unfold executeMount
    cases hexecute : a.execute with
    | true =>
      have hnow := Starts.now hstarted hexecute
      exact hnow
    | false => exact ⟨rfl, rfl, rfl⟩

theorem mountCatalog_wp (unit : Fin 8) (m : Medium Image) (answer : Long) (s : System Image) :
    wp (mountCatalog unit m answer) (fun result s' => result = answer ∧ s' = if answer = 0 then s.insert unit m else s)
      (fun _ => False) s := by
  unfold mountCatalog
  by_cases h : answer = 0
  · rw [if_pos h, if_pos h]
    exact ⟨rfl, rfl⟩
  · rw [if_neg h, if_neg h]
    exact ⟨rfl, rfl⟩

/-- The endpoint for it. -/
inductive Selects (a : FmountAnswers Image) (s : System Image) (profile : Profile) (dostype : DosType) : Target → Endpoint → Prop
  | endpoint (e : Endpoint) : Selects a s profile dostype (.endpoint e) e
  | logical (index : Fin 2) (hfree : logged (s.logical index) a.readLogical = none) (hreopens : a.reopens = true) :
    Selects a s profile dostype (.logical index) (endpointForMedia index profile dostype)

/-- Every way in which FMOUNT can end. -/
inductive Fmounts (lib : Support Image) (args : List (List Byte)) (a : FmountAnswers Image) (s : System Image) :
    FmountExit → System Image → Prop
  | usage (h : kick13Main args = .usage) : Fmounts lib args a s .usage s
  | badSlot (h : kick13Main args = .badSlot) : Fmounts lib args a s .badSlot s
  | badOption (slot : Byte) (h : kick13Main args = .slot slot) (hoptions : parseOptions args.tail = none) :
    Fmounts lib args a s .usage s
  | noTarget (slot : Byte) (readonly : Bool) (h : kick13Main args = .slot slot)
      (hoptions : parseOptions args.tail = some ⟨none, readonly⟩) : Fmounts lib args a s .noTarget s
  | cannotOpen (slot : Byte) (target : Target) (readonly : Bool) (h : kick13Main args = .slot slot)
      (hoptions : parseOptions args.tail = some ⟨some target, readonly⟩) (hopens : a.opens = false) :
    Fmounts lib args a s .cannotOpen s
  | unsupported (slot : Byte) (target : Target) (readonly : Bool) (h : kick13Main args = .slot slot)
      (hoptions : parseOptions args.tail = some ⟨some target, readonly⟩) (hopens : a.opens = true)
      (himage : ∀ image, a.image = some image → lib.classifyMediaProfile image = none ∨ lib.classifyFilesystem image = none) :
    Fmounts lib args a s .unsupported s
  | occupied (index : Fin 2) (m : Medium Image) (profile : Profile) (dostype : DosType) (label : List Byte)
      (h : Asks lib args a (.logical index) m profile dostype) (hlabel : logged (s.logical index) a.readLogical = some label) :
    Fmounts lib args a s (.occupied index label) s
  | cannotReopen (index : Fin 2) (m : Medium Image) (profile : Profile) (dostype : DosType)
      (h : Asks lib args a (.logical index) m profile dostype) (hfree : logged (s.logical index) a.readLogical = none)
      (hreopens : a.reopens = false) : Fmounts lib args a s .cannotOpen s
  | mismatch (target : Target) (m : Medium Image) (profile : Profile) (dostype : DosType) (e : Endpoint)
      (h : Asks lib args a target m profile dostype) (hselects : Selects a s profile dostype target e)
      (hkind : profile ≠ e.profile ∨ dostype ≠ e.dostype) : Fmounts lib args a s (.mismatch e.label profile dostype) s
  | mountFailed (target : Target) (m : Medium Image) (e : Endpoint) (h : Asks lib args a target m e.profile e.dostype)
      (hselects : Selects a s e.profile e.dostype target e) (hmount : a.mount ≠ 0) : Fmounts lib args a s (.mountFailed a.mount) s
  | cannotStart (target : Target) (m : Medium Image) (e : Endpoint) (h : Asks lib args a target m e.profile e.dostype)
      (hselects : Selects a s e.profile e.dostype target e) (hmount : a.mount = 0)
      (hstarted : wasStarted (s.endpoints e.unit) e.label a.readStarted = false) (hexecute : a.execute = false) :
    Fmounts lib args a s (.cannotStart e.label) (s.insert e.unit m)
  | mounted (target : Target) (m : Medium Image) (e : Endpoint) (s' : System Image) (h : Asks lib args a target m e.profile e.dostype)
      (hselects : Selects a s e.profile e.dostype target e) (hmount : a.mount = 0)
      (hstarts : Starts a e.unit e.label (s.insert e.unit m) s') :
    Fmounts lib args a s (.mounted m.slot e.label e.profile e.dostype) (s'.record target e.label a.writeLogical)

/-- Whatever the library tells, the endpoint has the label of its unit. -/
theorem Selects.label {lib : Support Image} {args : List (List Byte)} {a : FmountAnswers Image} {s : System Image} {target : Target}
    {m : Medium Image} {profile : Profile} {dostype : DosType} {e : Endpoint} (h : Asks lib args a target m profile dostype)
    (hselects : Selects a s profile dostype target e) : e.label = unitLabel e.unit := by
  cases hselects with
  | endpoint => exact congrArg Endpoint.label (parseOptions_static h.options)
  | logical index => exact (endpointForMedia_label index profile dostype).1

section

variable {lib : Support Image} {args : List (List Byte)} {a : FmountAnswers Image} {s : System Image} {target : Target}
  {m : Medium Image} {profile : Profile} {dostype : DosType} {e : Endpoint}

theorem mountOn_wp (h : Asks lib args a target m profile dostype) (hselects : Selects a s profile dostype target e) :
    wp (mountOn a target m profile dostype e) (Fmounts lib args a s) (fun _ => False) s := by
  unfold mountOn
  apply wp_ite
  · intro hkind
    exact .mismatch target m profile dostype e h hselects hkind
  intro hkind
  obtain ⟨rfl, rfl⟩ : profile = e.profile ∧ dostype = e.dostype := by
    simpa [not_or] using hkind
  refine wp.seq (mountCatalog_wp e.unit m a.mount s) fun result s₁ h₁ => ?_
  obtain ⟨rfl, rfl⟩ := h₁
  apply wp_ite
  · intro hmount
    rw [if_neg hmount]
    exact .mountFailed target m e h hselects hmount
  intro hmount
  replace hmount : a.mount = 0 := not_not.1 hmount
  rw [if_pos hmount]
  refine wp.seq (startEndpoint_wp a e (s.insert e.unit m)) fun goes s' hs' => ?_
  cases goes with
  | false =>
    obtain ⟨rfl, hstarted, hexecute⟩ := hs'
    exact .cannotStart target m e h hselects hmount hstarted hexecute
  | true =>
    have hmounted := Fmounts.mounted target m e s' h hselects hmount hs'
    cases target <;> exact hmounted

theorem mountSlot_wp {slot : Byte} {readonly : Bool} (hslot : kick13Main args = .slot slot)
    (hoptions : parseOptions args.tail = some ⟨some target, readonly⟩) :
    wp (mountSlot lib a slot target readonly) (Fmounts lib args a s) (fun _ => False) s := by
  unfold mountSlot
  cases hopens : a.opens with
  | false => exact .cannotOpen slot target readonly hslot hoptions hopens
  | true =>
    cases himage : a.image with
    | none =>
      refine Fmounts.unsupported slot target readonly hslot hoptions hopens fun image h => ?_
      rw [himage] at h
      cases h
    | some image =>
      simp only [Bool.not_true, Bool.false_eq_true, if_false]
      cases hprofile : lib.classifyMediaProfile image with
      | none =>
        refine Fmounts.unsupported slot target readonly hslot hoptions hopens fun image' h => ?_
        rw [himage] at h
        cases h
        exact .inl hprofile
      | some profile =>
        cases hdostype : lib.classifyFilesystem image with
        | none =>
          refine Fmounts.unsupported slot target readonly hslot hoptions hopens fun image' h => ?_
          rw [himage] at h
          cases h
          exact .inr hdostype
        | some dostype =>
          have hasks : Asks lib args a target ⟨slot, !readonly, image⟩ profile dostype :=
            ⟨hslot, by rw [hoptions, Bool.not_not], hopens, himage, hprofile, hdostype⟩
          dsimp only
          cases target with
          | endpoint e => exact mountOn_wp hasks (.endpoint e)
          | logical index =>
            unfold selectEndpoint
            rw [wp_bind]
            dsimp only
            rw [wp_bind, wp_of_ok (logicalUnitIsMounted_run index a.readLogical s)]
            cases hlabel : logged (s.logical index) a.readLogical with
            | some label => exact .occupied index _ profile dostype label hasks hlabel
            | none =>
              cases hreopens : a.reopens with
              | false => exact .cannotReopen index _ profile dostype hasks hlabel hreopens
              | true => exact mountOn_wp hasks (.logical index hlabel hreopens)

end

theorem fmount_wp (lib : Support Image) (args : List (List Byte)) (a : FmountAnswers Image) (s : System Image) :
    wp (fmount lib args a) (Fmounts lib args a s) (fun _ => False) s := by
  unfold fmount
  cases hslot : kick13Main args with
  | usage => exact .usage hslot
  | badSlot => exact .badSlot hslot
  | slot slot =>
    dsimp only
    cases hoptions : parseOptions args.tail with
    | none => exact .badOption slot hslot hoptions
    | some o =>
      obtain ⟨target, readonly⟩ := o
      cases target with
      | none => exact .noTarget slot readonly hslot hoptions
      | some target => exact mountSlot_wp hslot hoptions

/-! ### FUMOUNT -/

theorem loaded_none (answer : Bool) : loaded none answer = none := rfl

theorem loaded_unitLabel (unit : Fin 8) : loaded (some (unitLabel unit)) true = some (unit, unitLabel unit) := by
  unfold loaded
  rw [logged_unitLabel, Option.bind_some, parseEndpointName_eq, parseEndpoint_unitLabel]
  rfl

/-- Whatever a file holds, a label is read from it that is the unit's. -/
theorem loaded_static {file : Option (List Byte)} {answer : Bool} {unit : Fin 8} {label : List Byte}
    (h : loaded file answer = some (unit, label)) : label = unitLabel unit := by
  obtain ⟨recorded, -, hparse⟩ := Option.bind_eq_some_iff.1 h
  rw [parseEndpointName_eq, Option.map_eq_some_iff] at hparse
  obtain ⟨e, he, heq⟩ := hparse
  cases heq
  have hstatic := parseEndpoint_static he
  rw [unitLabel, ← hstatic]

theorem loadLogicalEndpoint_run (index : Fin 2) (answer : Bool) (s : System Image) :
    (loadLogicalEndpoint index answer).run s = .ok (loaded (s.logical index) answer) s := by
  unfold loadLogicalEndpoint loaded logged
  rw [run_bind_ok (show (get : Dos Image _).run s = .ok s s from rfl)]
  cases readLabel (s.logical index) answer with
  | none => rfl
  | some label =>
    by_cases h : label[3]? = some 0x3a
    · rw [Option.filter_some, if_pos (decide_eq_true h)]
      exact congrFun (congrArg EStateM.run (if_pos h)) s
    · rw [Option.filter_some, if_neg (by simpa using h)]
      exact congrFun (congrArg EStateM.run (if_neg h)) s

theorem clearLogicalEndpoint_run (index : Fin 2) (answer : Bool) (s : System Image) :
    (clearLogicalEndpoint index answer).run s = .ok ⟨⟩ (s.clear index answer) := by
  cases answer <;> rfl

theorem clearMatching_run (a : FumountAnswers) (label : List Byte) (index : Fin 2) (s : System Image) :
    (clearMatching a label index).run s = .ok ⟨⟩ (s.clearMatching a label index) := by
  unfold clearMatching System.clearMatching
  rw [run_bind_ok (loadLogicalEndpoint_run index (a.readLogical index) s)]
  cases loaded (s.logical index) (a.readLogical index) with
  | none => rfl
  | some found =>
    by_cases h : found.2.take 3 = label.take 3
    · rw [if_pos (by rw [Option.map_some, h]), ← clearLogicalEndpoint_run]
      exact congrFun (congrArg EStateM.run (if_pos h)) s
    · rw [if_neg (by simpa using h)]
      exact congrFun (congrArg EStateM.run (if_neg h)) s

/-- Every way in which FUMOUNT can end once it has its unit. -/
inductive Ejects (a : FumountAnswers) (s : System Image) (logicalUnit : Option (Fin 2)) (unit : Fin 8) (label : List Byte) :
    FumountExit → System Image → Prop
  | noPort (h : a.port = false) : Ejects a s logicalUnit unit label .noPort s
  | noRequest (hport : a.port = true) (h : a.request = false) : Ejects a s logicalUnit unit label .noRequest s
  | cannotOpen (hport : a.port = true) (hrequest : a.request = true) (h : a.opens = false) :
    Ejects a s logicalUnit unit label (.cannotOpen unit) s
  | ejectFailed (hport : a.port = true) (hrequest : a.request = true) (hopens : a.opens = true) (h : a.eject ≠ 0) :
    Ejects a s logicalUnit unit label (.ejectFailed a.eject) s
  | ejected (hport : a.port = true) (hrequest : a.request = true) (hopens : a.opens = true) (heject : a.eject = 0) :
    Ejects a s logicalUnit unit label (.ejected label) ((s.remove unit).forget a logicalUnit label)

theorem tdEject_wp (unit : Fin 8) (answer : Long) (s : System Image) :
    wp (tdEject unit answer) (fun result s' => result = answer ∧ s' = if answer = 0 then s.remove unit else s) (fun _ => False) s := by
  unfold tdEject
  by_cases h : answer = 0
  · rw [if_pos h, if_pos h]
    exact ⟨rfl, rfl⟩
  · rw [if_neg h, if_neg h]
    exact ⟨rfl, rfl⟩

theorem clearMatchingLogicalEndpoint_run (a : FumountAnswers) (label : List Byte) (s : System Image) :
    (clearMatchingLogicalEndpoint a label).run s = .ok ⟨⟩ ((s.clearMatching a label 0).clearMatching a label 1) := by
  unfold clearMatchingLogicalEndpoint
  rw [run_bind_ok (clearMatching_run a label 0 s), clearMatching_run]

theorem ejectUnit_wp (a : FumountAnswers) (logicalUnit : Option (Fin 2)) (unit : Fin 8) (label : List Byte) (s : System Image) :
    wp (ejectUnit a logicalUnit unit label) (Ejects a s logicalUnit unit label) (fun _ => False) s := by
  unfold ejectUnit
  cases hport : a.port with
  | false => exact .noPort hport
  | true =>
    cases hrequest : a.request with
    | false => exact .noRequest hport hrequest
    | true =>
      cases hopens : a.opens with
      | false => exact .cannotOpen hport hrequest hopens
      | true =>
        refine wp.seq (tdEject_wp unit a.eject s) fun result s₁ h₁ => ?_
        obtain ⟨rfl, rfl⟩ := h₁
        apply wp_ite
        · intro heject
          rw [if_neg heject]
          exact .ejectFailed hport hrequest hopens heject
        intro heject
        replace heject : a.eject = 0 := not_not.1 heject
        have hejected : Ejects a s logicalUnit unit label (.ejected label) ((s.remove unit).forget a logicalUnit label) :=
          .ejected hport hrequest hopens heject
        rw [if_pos heject]
        cases logicalUnit with
        | some index =>
          dsimp only
          rw [wp_bind, wp_of_ok (clearLogicalEndpoint_run index (a.delete index) (s.remove unit)), wp_pure]
          exact hejected
        | none =>
          dsimp only
          rw [wp_bind, wp_of_ok (clearMatchingLogicalEndpoint_run a label (s.remove unit)), wp_pure]
          exact hejected

inductive Fumounts (args : List (List Byte)) (a : FumountAnswers) (s : System Image) : FumountExit → System Image → Prop
  | usage (h : fumountUnit args a s = none) : Fumounts args a s .usage s
  | unit (logicalUnit : Option (Fin 2)) (unit : Fin 8) (label : List Byte) (h : fumountUnit args a s = some (logicalUnit, unit, label))
      (exit : FumountExit) (s' : System Image) (hejects : Ejects a s logicalUnit unit label exit s') : Fumounts args a s exit s'

theorem fumount_wp (args : List (List Byte)) (a : FumountAnswers) (s : System Image) :
    wp (fumount args a) (Fumounts args a s) (fun _ => False) s := by
  have hunit : ∀ logicalUnit unit label, fumountUnit args a s = some (logicalUnit, unit, label) →
      wp (ejectUnit a logicalUnit unit label) (Fumounts args a s) (fun _ => False) s := fun logicalUnit unit label h =>
    (ejectUnit_wp a logicalUnit unit label s).mono (fun exit s' => .unit logicalUnit unit label h exit s') fun _ => id
  unfold fumount
  unfold fumountUnit at hunit
  have husage : fumountUnit args a s = none → Fumounts args a s .usage s := .usage
  unfold fumountUnit at husage
  split
  next arg =>
    dsimp only at hunit husage
    by_cases hq : arg.head? = some 0x3f
    · rw [if_pos hq] at husage ⊢
      exact husage rfl
    rw [if_neg hq] at husage hunit ⊢
    cases hlogical : parseLogicalUnit arg with
    | some index =>
      simp only [hlogical] at husage hunit
      dsimp only
      rw [wp_bind, wp_of_ok (loadLogicalEndpoint_run index (a.readLogical index) s)]
      cases hload : loaded (s.logical index) (a.readLogical index) with
      | none =>
        rw [hload] at husage
        exact husage rfl
      | some found =>
        rw [hload] at hunit
        exact hunit (some index) found.1 found.2 rfl
    | none =>
      simp only [hlogical] at husage hunit
      dsimp only
      cases hname : parseEndpointName arg with
      | none =>
        rw [hname] at husage
        exact husage rfl
      | some found =>
        rw [hname] at hunit
        exact hunit none found.1 found.2 rfl
  next hargs =>
    refine husage ?_
    split
    next arg => exact absurd rfl (hargs arg)
    next => rfl

theorem fumountUnit_label {args : List (List Byte)} {a : FumountAnswers} {s : System Image} {logicalUnit : Option (Fin 2)}
    {unit : Fin 8} {label : List Byte} (h : fumountUnit args a s = some (logicalUnit, unit, label)) : label = unitLabel unit := by
  unfold fumountUnit at h
  split at h
  next arg =>
    split_ifs at h
    split at h
    next index _ =>
      obtain ⟨found, hload, heq⟩ := Option.map_eq_some_iff.1 h
      cases heq
      exact loaded_static hload
    next =>
      obtain ⟨found, hname, heq⟩ := Option.map_eq_some_iff.1 h
      cases heq
      rw [parseEndpointName_eq] at hname
      obtain ⟨e, he, heq⟩ := Option.map_eq_some_iff.1 hname
      cases heq
      have hstatic := parseEndpoint_static he
      rw [unitLabel, ← hstatic]
  next => cases h

/-- A logical unit is named by its file. -/
theorem fumountUnit_logical {args : List (List Byte)} {a : FumountAnswers} {s : System Image} {index : Fin 2} {unit : Fin 8}
    {label : List Byte} (h : fumountUnit args a s = some (some index, unit, label)) :
    loaded (s.logical index) (a.readLogical index) = some (unit, label) := by
  unfold fumountUnit at h
  split at h
  next arg =>
    split_ifs at h
    split at h
    next index' _ =>
      obtain ⟨found, hload, heq⟩ := Option.map_eq_some_iff.1 h
      cases heq
      exact hload
    next =>
      obtain ⟨found, -, heq⟩ := Option.map_eq_some_iff.1 h
      cases heq
  next => cases h

end NioApps.Kick13
