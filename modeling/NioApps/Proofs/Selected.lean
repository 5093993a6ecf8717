import Mathlib.Data.List.TakeWhile
import NioApps.Proofs.ShellCalls
import NioApps.Spec.Units

/-! Runs of FIN, FOUT, FMOUNT, FUMOUNT and FBOOT: every program comes to its end and does
what its arguments ask for, and FMOUNT mounts what the last FIN for the slot selected. -/

namespace NioApps.Shell

open Abort Commands Service
open AppStore (ascii)

variable {σ τ : Type} {e : Setup σ τ} {slots : σ → Slots}

/-! ### A machine -/

/-- A catalog in memory; a slot without an image has an empty URI. -/
def memory : Catalog (Byte → Bool × List Byte) where
  get slot m := if (m slot).2 = [] then (.error 1, m) else (.ok ⟨true, (m slot).1, (m slot).2⟩, m)
  put slot readOnly uri m := (.ok ⟨true, readOnly, uri⟩, Function.update m slot (readOnly, uri))
  delete slot m := if (m slot).2 = [] then (.error 1, m) else (.ok true, Function.update m slot (false, []))
  notFound := 1

def memorySlots (m : Byte → Bool × List Byte) : Slots := fun slot => if (m slot).2 = [] then none else some (m slot)

theorem memorySlots_update (m : Byte → Bool × List Byte) (slot : Byte) (v : Bool × List Byte) :
    memorySlots (Function.update m slot v) = Function.update (memorySlots m) slot (if v.2 = [] then none else some v) := by
  funext slot'
  rw [memorySlots, Function.update_apply, Function.update_apply, memorySlots]
  split_ifs <;> rfl

theorem memory_keeps : Keeps memory memorySlots where
  get slot m := by
    by_cases hnil : (m slot).2 = []
    · have hget : memory.get slot m = (.error 1, m) := if_pos hnil
      rw [hget]
      exact ⟨rfl, nofun, fun _ => if_pos hnil⟩
    · have hget : memory.get slot m = (.ok ⟨true, (m slot).1, (m slot).2⟩, m) := if_neg hnil
      rw [hget]
      refine ⟨rfl, fun entry hentry => ?_, nofun⟩
      cases hentry
      have hset : ¬ (true = false ∨ (m slot).2 = []) := by simp [hnil]
      rw [if_neg hset, memorySlots, if_neg hnil]
  put slot readOnly uri m huri := by
    left
    change memorySlots (Function.update m slot (readOnly, uri)) = _
    rw [memorySlots_update, if_neg huri]
  delete slot m := by
    left
    by_cases hnil : (m slot).2 = []
    · have hdelete : memory.delete slot m = (.error 1, m) := if_pos hnil
      have hnone : none = memorySlots m slot := (if_pos hnil).symm
      rw [hdelete, hnone, Function.update_eq_self]
    · have hdelete : memory.delete slot m = (.ok true, Function.update m slot (false, [])) := if_neg hnil
      rw [hdelete, memorySlots_update]
      rfl

def linuxSetup : Setup (Byte → Bool × List Byte) Units where
  target := .linux
  catalog := memory
  platform := storePlatform .linux
  diskErr := Service.diskErr
  mountErr := ⟨1, 2, 3, 4, 5, 6, 7⟩

/-- Nothing selected, nothing stored; every request is granted. -/
def powerOn : Machine (Byte → Bool × List Byte) Units where
  client := Client.start linuxSetup.diskErr fun _ => ⟨0, 0, 0, fun _ => 0⟩
  catalog := fun _ => (false, [])
  units := ⟨fun _ => none, fun _ => true, id⟩
  out := []

/-- The Atari version asks. -/
def atariSetup : Setup (Byte → Bool × List Byte) Units :=
  { linuxSetup with target := .atari, platform := storePlatform .atari }

/-- `FIN 1 TNFS:A`, `FMOUNT 1`, `FUMOUNT B:`, `FOUT 1` and `FMOUNT 1`. -/
def evening : List Line :=
  [.fin [ascii "1", ascii "TNFS:A"] [], .fmount [ascii "1"] [], .fumount [ascii "B:"], .fout [ascii "1"] [],
    .fmount [ascii "1"] []]

/-! ### Sessions -/

/-- Programs one after another, each with the effect of its action. -/
inductive Course (e : Setup σ τ) (slots : σ → Slots) : Machine σ τ → List (Ran σ τ) → Machine σ τ → Prop
  | nil (s : Machine σ τ) : Course e slots s [] s
  | cons {line : Line} {code : ℕ} {s s' last : Machine σ τ} {rans : List (Ran σ τ)}
      (h : Does e slots (fresh e s) (line.action e (fresh e s).units) code s') (hanswer : s'.client.answer = s.client.answer)
      (hrest : Course e slots s' rans last) : Course e slots s (⟨line, code, fresh e s, s'⟩ :: rans) last

theorem session_course (e : Setup σ τ) (slots : σ → Slots) (hK : Keeps e.catalog slots) (lines : List Line)
    (s : Machine σ τ) :
    Course e slots s (session e lines s).1 (session e lines s).2 ∧ (session e lines s).1.map Ran.line = lines := by
  induction lines generalizing s with
  | nil => exact ⟨.nil s, rfl⟩
  | cons line lines ih =>
    obtain ⟨code, s', hrun, hdoes, hanswer⟩ := (line_does hK line (fresh e s)).returns
    obtain ⟨hcourse, hlines⟩ := ih s'
    rw [session, hrun]
    exact ⟨.cons hdoes hanswer hcourse, congrArg (line :: ·) hlines⟩

/-- The second FMOUNT finds no image. -/
theorem session_course_evening : Course linuxSetup memorySlots powerOn (session linuxSetup evening powerOn).1
    (session linuxSetup evening powerOn).2 ∧ (session linuxSetup evening powerOn).1.map Ran.line = evening ∧
      (session linuxSetup evening powerOn).1.map Ran.code = [0, 0, 0, 0, 2] ∧
        (session linuxSetup evening powerOn).2.client.sent =
          [(DiskCall.mount 1 (ascii "TNFS:A") 0 0).request, (DiskCall.unmount 1).request] :=
  have h := session_course linuxSetup memorySlots memory_keeps evening powerOn
  ⟨h.1, h.2, rfl, rfl⟩

/-! ### One slot -/

/-- FIN or FOUT for the slot. -/
def Line.Touches (e : Setup σ τ) (slot : Byte) : Line → Prop
  | .fin args typed => ∃ path, (finArgs e args typed).2 = .ok (slot, path)
  | .fout args typed => (foutArgs e args typed).2 = .ok slot
  | _ => False

theorem toOption_eq_some {ε α : Type} {x : Except ε α} {a : α} (h : x.toOption = some a) : x = .ok a := by
  cases x with
  | error _ => cases h
  | ok b =>
    cases h
    rfl

theorem touches_of_select {units : τ} {line : Line} {slot : Byte} {path : List Byte}
    (h : line.action e units = some (.select slot path)) : line.Touches e slot := by
  cases line with
  | fin args =>
    obtain ⟨p, hp, hact⟩ := Option.map_eq_some_iff.1 h
    cases hact
    exact ⟨p.2, toOption_eq_some hp⟩
  | fout args =>
    obtain ⟨p, -, hact⟩ := Option.map_eq_some_iff.1 h
    cases hact
  | fmount args =>
    obtain ⟨p, -, hact⟩ := Option.map_eq_some_iff.1 h
    cases hact
  | fumount args =>
    obtain ⟨p, -, hact⟩ := Option.map_eq_some_iff.1 h
    cases hact
  | fboot args =>
    obtain ⟨p, -, hact⟩ := Option.map_eq_some_iff.1 h
    cases hact

theorem touches_of_clear {units : τ} {line : Line} {slot : Byte} (h : line.action e units = some (.clear slot)) :
    line.Touches e slot := by
  cases line with
  | fin args =>
    obtain ⟨p, -, hact⟩ := Option.map_eq_some_iff.1 h
    cases hact
  | fout args =>
    obtain ⟨p, hp, hact⟩ := Option.map_eq_some_iff.1 h
    cases hact
    exact toOption_eq_some hp
  | fmount args =>
    obtain ⟨p, -, hact⟩ := Option.map_eq_some_iff.1 h
    cases hact
  | fumount args =>
    obtain ⟨p, -, hact⟩ := Option.map_eq_some_iff.1 h
    cases hact
  | fboot args =>
    obtain ⟨p, -, hact⟩ := Option.map_eq_some_iff.1 h
    cases hact

theorem update_or {m m' : Slots} {slot slot' : Byte} {v : Option (Bool × List Byte)} (hne : slot ≠ slot')
    (h : m' = Function.update m slot' v ∨ m' = m) : m' slot = m slot := by
  rcases h with rfl | rfl
  · exact Function.update_of_ne hne v m
  · rfl

theorem Leaves.slot_eq {ok : Prop} {m after : Slots} {v : Option (Bool × List Byte)} {slot slot' : Byte} {code : ℕ}
    (h : Leaves ok m (Function.update m slot' v) after code) (hne : slot ≠ slot') : after slot = m slot := by
  rcases h with ⟨-, h, -⟩ | ⟨-, h, -⟩
  · exact update_or hne (Or.inl h)
  · exact update_or hne h

/-- A program that does not name the slot leaves it. -/
theorem Does.slot_eq {line : Line} {code : ℕ} {s s' : Machine σ τ} {slot : Byte} (h : Does e slots s (line.action e s.units) code s')
    (hline : ¬ line.Touches e slot) : slots s'.catalog slot = slots s.catalog slot := by
  generalize hact : line.action e s.units = act at h
  cases h with
  | refused _ _ _ hslots => rw [hslots]
  | select slot' path _ _ _ _ hslots =>
    have hne : slot ≠ slot' := fun heq => hline (heq ▸ touches_of_select hact)
    rw [Selects] at hslots
    split_ifs at hslots
    · exact hslots.slot_eq hne
    · rw [hslots.1]
  | clear slot' _ _ _ _ hslots =>
    have hne : slot ≠ slot' := fun heq => hline (heq ▸ touches_of_clear hact)
    exact Leaves.slot_eq hslots hne
  | noImage _ _ _ _ _ hslots => rw [hslots]
  | mount _ _ _ _ _ _ _ _ _ _ hslots => rw [hslots]
  | unmount _ _ _ _ _ hslots => rw [hslots]
  | restore _ _ _ _ _ hslots => rw [hslots]

theorem session_slot_eq (hK : Keeps e.catalog slots) {slot : Byte} {lines : List Line} (hlines : ∀ line ∈ lines, ¬ line.Touches e slot)
    (s : Machine σ τ) : slots (session e lines s).2.catalog slot = slots s.catalog slot := by
  induction lines generalizing s with
  | nil => rfl
  | cons line lines ih =>
    obtain ⟨code, s', hrun, hdoes, -⟩ := (line_does hK line (fresh e s)).returns
    rw [session, hrun]
    exact (ih (fun l hl => hlines l (List.mem_cons_of_mem _ hl)) s').trans (hdoes.slot_eq (hlines line List.mem_cons_self))

/-- A string that fits is read from the catalog as it is. -/
theorem mountUri_eq {path : List Byte} (hnul : 0 ∉ path) (hlen : path.length ≤ mountUriMax) : mountUri path = path := by
  rw [mountUri, List.take_of_length_le hlen, cstr, List.takeWhile_eq_self_iff]
  intro b hb
  have hne : b ≠ 0 := fun h0 => hnul (h0 ▸ hb)
  simpa using hne

theorem mount_selected (e : Setup σ τ) (slots : σ → Slots) (hK : Keeps e.catalog slots) (args : List (List Byte))
    (typed : List Byte) (slot : Byte) (path : List Byte) (hargs : (finArgs e args typed).2 = .ok (slot, path)) (hnul : 0 ∉ path)
    (hlen : path.length < 2 ^ 16) (lines : List Line) (hlines : ∀ line ∈ lines, ¬ line.Touches e slot) (s s₁ : Machine σ τ)
    (hfin : (fin e args typed).run (fresh e s) = .ok 0 s₁) (args' : List (List Byte)) (typed' : List Byte) (a : MountArgs)
    (hargs' : (mountArgs e (fresh e (session e lines s₁).2).units args' typed').2 = .ok a) (hslot : a.slot = slot) :
    ∃ code s₂, (fmount e args' typed').run (fresh e (session e lines s₁).2) = .ok code s₂ ∧
      (e.catalog.Reads slot (session e lines s₁).2.catalog →
        Sends e (.mount a.unit path a.readOnly a.sectorSize) a.unit a.unit (fresh e (session e lines s₁).2) s₂ code) ∧
      (¬ e.catalog.Reads slot (session e lines s₁).2.catalog → s₂.client.sent = (session e lines s₁).2.client.sent ∧
        s₂.units = (fresh e (session e lines s₁).2).units ∧ code = 2) := by
  have hselect := ((fin_does hK args typed (fresh e s)).ok hfin).1
  rw [Line.action, hargs] at hselect
  have hkept := session_slot_eq hK hlines s₁
  generalize (session e lines s₁).2 = s' at hkept hargs' ⊢
  obtain ⟨hfits, hslots⟩ : path.length ≤ mountUriMax ∧ slots s₁.catalog slot = some (false, path) := by
    cases hselect with
    | select _ _ _ _ _ _ hslots =>
      rw [Selects] at hslots
      split_ifs at hslots with hfits
      · rw [FitsSlot, BitVec.toNat_ofNat, Nat.mod_eq_of_lt hlen] at hfits
        rcases hslots with ⟨-, hslots, -⟩ | ⟨-, -, hcode⟩
        · exact ⟨hfits, by rw [hslots]; exact Function.update_self ..⟩
        · cases hcode
      · cases hslots.2
  have hmounted := mountUri_eq hnul hfits
  obtain ⟨code, s₂, hrun, hdoes, -⟩ := (fmount_does hK args' typed' (fresh e s')).returns
  refine ⟨code, s₂, hrun, ?_⟩
  have hact : (Line.fmount args' typed').action e (fresh e s').units = some (.mount a) := by
    rw [Line.action, hargs']
    rfl
  rw [hact] at hdoes
  cases hdoes with
  | noImage _ _ hnone hwire hunits =>
    rw [hslot] at hnone
    refine ⟨fun hreads => ?_, fun _ => ⟨hwire, hunits, rfl⟩⟩
    have hempty := hnone.resolve_left (not_not.2 hreads) false path (hkept.trans hslots)
    exact absurd (hmounted.symm.trans hempty) (finArgs_path hargs)
  | mount _ readOnly uri _ _ hreads hslot' _ _ hsends =>
    rw [hslot] at hreads hslot'
    cases (hkept.trans hslots).symm.trans hslot'
    rw [hmounted] at hsends
    exact ⟨fun _ => hsends, fun hfails => absurd hreads hfails⟩

/-- `FIN` and `FMOUNT` on an Atari, with slot 1, the image, and slot 1 again typed. -/
theorem mount_selected_evening : ∃ s₁ s₂,
    (fin atariSetup [] (ascii "1" ++ [0x9b] ++ ascii "TNFS:A" ++ [0x9b])).run (fresh atariSetup powerOn) = .ok 0 s₁ ∧
      (fmount atariSetup [] (ascii "1" ++ [0x9b, 0x9b, 0x9b, 0x9b])).run
        (fresh atariSetup (session atariSetup [.fout [ascii "2"] []] s₁).2) = .ok 0 s₂ ∧
        s₂.client.sent = [(DiskCall.mount 1 (ascii "TNFS:A") 0 0).request] := by
  have hother : ∀ line ∈ [Line.fout [ascii "2"] []], ¬ line.Touches atariSetup 1 := by
    intro line hline
    rw [List.mem_singleton.1 hline]
    exact fun h => absurd (Except.ok.inj h) (by decide)
  obtain ⟨code, s₂, hrun, hsends, -⟩ := mount_selected atariSetup memorySlots memory_keeps []
    (ascii "1" ++ [0x9b] ++ ascii "TNFS:A" ++ [0x9b]) 1 (ascii "TNFS:A") rfl (by decide) (by decide) [.fout [ascii "2"] []] hother
    powerOn _ rfl [] (ascii "1" ++ [0x9b, 0x9b, 0x9b, 0x9b]) ⟨1, 1, 0, 0⟩ rfl rfl
  obtain ⟨hsent, ⟨-, -, hcode⟩ | ⟨hrefused, -, -⟩⟩ := hsends (by rintro err ⟨⟩)
  · subst hcode
    exact ⟨_, s₂, rfl, hrun, hsent⟩
  · exact absurd ⟨rfl, rfl, trivial⟩ hrefused

end NioApps.Shell
