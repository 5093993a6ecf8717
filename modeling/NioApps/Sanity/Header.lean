import NioApps.Sanity.Segments

/-! `parse_o65_header`, and `load_module` from the header it accepts. -/

namespace NioApps.Loader

open Abort Image

/-- A byte and a word of the o65 header. -/
def o65Byte (w : Ram) (k : Word) : Byte := w.mem (w.zp.modulePtr + k)
def o65Word (w : Ram) (k : Word) : Word := wordAt w.mem (w.zp.modulePtr + k)

/-- A header that `parse_o65_header` accepts. -/
structure HeaderOk (b : Build) (w : Ram) : Prop where
  magic : o65Byte w 0 = 1 ∧ o65Byte w 1 = 0 ∧ o65Byte w 2 = 0x6f ∧ o65Byte w 3 = 0x36 ∧ o65Byte w 4 = 0x35
  mode : o65Byte w 5 = 0 ∧ o65Byte w 6 = 0 ∧ o65Byte w 7 = 8
  textBase : o65Word w 8 = 0
  dataBase : o65Word w 12 = o65Word w 10
  bssBase : o65Word w 16 = o65Word w 10 + o65Word w 14
  alloc : o65Word w 10 + o65Word w 14 + o65Word w 18 = w.fnrAlloc b
  zpBase : o65Word w 20 = 0
  zpSize : o65Word w 22 = w.fnrZp b
  stack : o65Word w 24 = 0

/-- The state after an accepted header. -/
def parsed (w : Ram) : Ram :=
  { w.setZp { w.zp with srcPtr := w.zp.modulePtr + 26 } with
    textSize := o65Word w 10
    dataSize := o65Word w 14
    initSize := o65Word w 10 + o65Word w 14
    bssSize := o65Word w 18 }

/-- The sizes that a refused header has left, and the detail. -/
def refused (t d i s : Word) (e : Byte) (w : Ram) : Ram :=
  { w.setDetail e with textSize := t, dataSize := d, initSize := i, bssSize := s }

theorem parseO65Header_cases (b : Build) (w : Ram) :
    (HeaderOk b w ∧ (parseO65Header b).run w = .ok false (parsed w)) ∨
      (¬HeaderOk b w ∧ ∃ t d i s, (parseO65Header b).run w = .ok true (refused t d i s 0xe1 w)) := by
  have hbad (t d i s : Word) :
      (parseO65Header.parseBad).run { w with textSize := t, dataSize := d, initSize := i, bssSize := s } =
        .ok true (refused t d i s 0xe1 w) := rfl
  simp only [parseO65Header, EStateM.run_bind, EStateM.run_get]
  split_ifs with h1 h2 h3 h4
  · refine .inr ⟨fun h => ?_, _, _, _, _, hbad w.textSize w.dataSize w.initSize w.bssSize⟩
    obtain ⟨hmagic, hmode, htext, -⟩ := h
    simp only [o65Byte, o65Word] at hmagic hmode htext
    simp only [hmagic, hmode, htext, ne_eq, not_true_eq_false, or_false] at h1
  · exact .inr ⟨fun h => h2 h.dataBase, _, _, _, _, hbad (o65Word w 10) w.dataSize w.initSize w.bssSize⟩
  · exact .inr ⟨fun h => h3 h.bssBase, _, _, _, _, hbad _ _ _ w.bssSize⟩
  · refine .inr ⟨fun h => ?_, _, _, _, _, hbad _ _ _ _⟩
    exact h4.elim (· h.alloc) (·.elim (· h.zpBase) (·.elim (· h.zpSize) (· h.stack)))
  · simp only [not_or, not_not] at h1 h2 h3 h4
    obtain ⟨h0, h1', h2', h3', h4', h5, h6, h7, htext⟩ := h1
    exact .inl ⟨⟨⟨h0, h1', h2', h3', h4'⟩, ⟨h5, h6, h7⟩, htext, h2, h3, h4.1, h4.2.1, h4.2.2.1, h4.2.2.2⟩, rfl⟩

theorem loadModule_bad {b : Build} {w : Ram} (h : ¬HeaderOk b w) :
    ∃ t d i s, (loadModule b).run w = .ok true (refused t d i s 0xe8 w) := by
  rcases parseO65Header_cases b (w.setDetail 0x30) with ⟨hok, -⟩ | ⟨-, t, d, i, s, hrun⟩
  · exact absurd ⟨hok.magic, hok.mode, hok.textBase, hok.dataBase, hok.bssBase, hok.alloc, hok.zpBase, hok.zpSize,
      hok.stack⟩ h
  · refine ⟨t, d, i, s, ?_⟩
    simp only [loadModule, EStateM.run_bind, EStateM.run_modify, hrun, if_true]
    rfl

/-- With an accepted header `load_module` is the rest of the module and the check of its end. -/
theorem loadModule_run {b : Build} {w : Ram} (h : HeaderOk b w) :
    (loadModule b).run w =
      match (loadImage b).run (parsed (w.setDetail 0x30)) with
      | .ok true w' => .ok true w'
      | .ok false w' => .ok (w'.zp.srcPtr ≠ w'.zp.moduleEnd) w'
      | .error () w' => .error () w' := by
  rcases parseO65Header_cases b (w.setDetail 0x30) with ⟨-, hrun⟩ | ⟨hbad, -⟩
  · change (parseO65Header b >>= _).run (w.setDetail 0x30) = _
    rw [run_bind_ok hrun]
    change (loadImage b >>= _).run (parsed (w.setDetail 0x30)) = _
    rw [EStateM.run_bind]
    cases (loadImage b).run (parsed (w.setDetail 0x30)) with
    | ok a w' => cases a <;> rfl
    | error e w' => rfl
  · exact absurd ⟨h.magic, h.mode, h.textBase, h.dataBase, h.bssBase, h.alloc, h.zpBase, h.zpSize, h.stack⟩ hbad

theorem loadModule_left {b : Build} {w : Ram} (h : HeaderOk b w) :
    left ((loadModule b).run w) = left ((loadImage b).run (parsed (w.setDetail 0x30))) := by
  rw [loadModule_run h]
  cases (loadImage b).run (parsed (w.setDetail 0x30)) with
  | ok a w' => cases a <;> rfl
  | error e w' => rfl

theorem parseO65Header_steady (b : Build) : Keeps (Steady b) (parseO65Header b) := by
  intro w
  rcases parseO65Header_cases b w with ⟨-, hrun⟩ | ⟨-, t, d, i, s, hrun⟩ <;> rw [hrun] <;> exact .of_still rfl

theorem loadModule_steady (b : Build) : Keeps (Steady b) (loadModule b) := by
  refine .bind (.modify fun _ => .of_still rfl) fun _ => .bind (parseO65Header_steady b) fun c => .ite (fun _ => ?_) fun _ => ?_
  · exact .bind (.modify fun _ => .of_still rfl) fun _ => .pure true
  · refine .bind (steady_carried b).loadImage fun c => .ite (fun _ => .pure true) fun _ => .get_bind fun w => .of_still rfl

end NioApps.Loader
