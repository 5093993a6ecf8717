import NioApps.Spec.DiskImage

/-! What `collect_entries` finds: an entry for each name path that is `Listed`, with its source
and image path read off that path, and none before the entry of its directory. -/

namespace NioApps.Staging

open Paths

/-- The names in every directory are distinct. -/
inductive HostDir : List Node → Prop where
  | intro {children : List Node} (names : (children.map Node.name).Nodup)
      (inside : ∀ name sub, Node.dir name sub ∈ children → HostDir sub) : HostDir children

theorem HostDir.names {children : List Node} (h : HostDir children) : (children.map Node.name).Nodup := by
  cases h
  assumption

theorem HostDir.inside {children : List Node} (h : HostDir children) {name : Str} {sub : List Node}
    (hmem : Node.dir name sub ∈ children) : HostDir sub := by
  cases h with
  | intro _ inside => exact inside name sub hmem

structure HostTree where
  path : Path
  children : List Node
  distinct : HostDir children

/-- The names from the input directory down to a file, or to a directory, where no name on the
way is ignored. -/
inductive Listed (py : Python) : List Node → List Str → Bool → Prop where
  | file {children : List Node} {name : Str} (hmem : Node.file name ∈ children) (hname : isIgnored py name = false) :
      Listed py children [name] false
  | dir {children sub : List Node} {name : Str} (hmem : Node.dir name sub ∈ children) (hname : isIgnored py name = false) :
      Listed py children [name] true
  | inside {children sub : List Node} {name : Str} {names : List Str} {b : Bool} (hmem : Node.dir name sub ∈ children)
      (hname : isIgnored py name = false) (hsub : Listed py sub names b) : Listed py children (name :: names) b

theorem Listed.ne_nil {py : Python} {children : List Node} {names : List Str} {b : Bool} (h : Listed py children names b) :
    names ≠ [] := by
  cases h <;> exact List.cons_ne_nil _ _

/-- The part of it that begins with one child. -/
def Node.Lists (py : Python) : Node → List Str → Bool → Prop
  | .file name, names, b => names = [name] ∧ b = false
  | .dir name sub, names, b => (names = [name] ∧ b = true) ∨ ∃ rest, names = name :: rest ∧ Listed py sub rest b
  | .special _, _, _ => False

theorem Node.induction {motive : Node → Prop} (file : ∀ name, motive (.file name)) (special : ∀ name, motive (.special name))
    (dir : ∀ name children, (∀ child ∈ children, motive child) → motive (.dir name children)) (child : Node) :
    motive child := by
  refine Node.rec (motive_1 := motive) (motive_2 := fun children => ∀ child ∈ children, motive child) file dir special ?_ ?_ child
  · intro child hchild
    cases hchild
  · intro head tail hhead htail
    exact List.forall_mem_cons.2 ⟨hhead, htail⟩

section Rounds

variable {f : Node → Except Exc (List ImageEntry)}

theorem addAll_cons {c : Node} {cs : List Node} {entries : List ImageEntry} (h : addAll ((c :: cs).map f) = .ok entries) :
    ∃ l rest, f c = .ok l ∧ addAll (cs.map f) = .ok rest ∧ entries = l ++ rest := by
  rw [List.map_cons] at h
  cases hc : f c with
  | error e =>
    rw [hc] at h
    cases h
  | ok l =>
    rw [hc] at h
    unfold addAll at h
    split at h
    · cases h
    · rename_i rest hrest
      cases h
      exact ⟨l, rest, rfl, hrest, rfl⟩

theorem addAll_ok {cs : List Node} {entries : List ImageEntry} (h : addAll (cs.map f) = .ok entries) :
    (∀ c ∈ cs, ∃ l, f c = .ok l) ∧ ∀ e, e ∈ entries ↔ ∃ c ∈ cs, ∃ l, f c = .ok l ∧ e ∈ l := by
  induction cs generalizing entries with
  | nil =>
    cases h
    simp
  | cons c cs ih =>
    obtain ⟨l, rest, hc, hrest, rfl⟩ := addAll_cons h
    obtain ⟨hall, hmem⟩ := ih hrest
    refine ⟨List.forall_mem_cons.2 ⟨⟨l, hc⟩, hall⟩, ?_⟩
    intro e
    rw [List.mem_append, hmem e, List.exists_mem_cons_iff]
    simp [hc]

/-- A relation between the entries of a round, and from those of a round to those of a later one. -/
theorem addAll_pairwise {R : ImageEntry → ImageEntry → Prop} {cs : List Node} {entries : List ImageEntry}
    (h : addAll (cs.map f) = .ok entries) (hround : ∀ c ∈ cs, ∀ l, f c = .ok l → l.Pairwise R)
    (hrounds : cs.Pairwise fun c c' => ∀ l l', f c = .ok l → f c' = .ok l' → ∀ x ∈ l, ∀ y ∈ l', R x y) :
    entries.Pairwise R := by
  induction cs generalizing entries with
  | nil =>
    cases h
    exact List.Pairwise.nil
  | cons c cs ih =>
    obtain ⟨l, rest, hc, hrest, rfl⟩ := addAll_cons h
    rw [List.forall_mem_cons] at hround
    rw [List.pairwise_cons] at hrounds
    rw [List.pairwise_append]
    refine ⟨hround.1 l hc, ih hrest hround.2 hrounds.2, ?_⟩
    intro x hx y hy
    obtain ⟨c', hc', l', hl', hy⟩ := ((addAll_ok hrest).2 y).1 hy
    exact hrounds.1 c' hc' l l' hc hl' x hx y hy

end Rounds

section Walk

variable {py : Python}

theorem listed_iff {children : List Node} {names : List Str} {b : Bool} :
    Listed py children names b ↔ ∃ child ∈ children, isIgnored py child.name = false ∧ child.Lists py names b := by
  constructor
  · intro h
    cases h with
    | file hmem hname => exact ⟨_, hmem, hname, rfl, rfl⟩
    | dir hmem hname => exact ⟨_, hmem, hname, .inl ⟨rfl, rfl⟩⟩
    | inside hmem hname hsub => exact ⟨_, hmem, hname, .inr ⟨_, rfl, hsub⟩⟩
  · rintro ⟨child, hmem, hname, hlists⟩
    cases child with
    | file name =>
      obtain ⟨rfl, rfl⟩ := hlists
      exact .file hmem hname
    | dir name sub =>
      rcases hlists with ⟨rfl, rfl⟩ | ⟨rest, rfl, hsub⟩
      · exact .dir hmem hname
      · exact .inside hmem hname hsub
    | special name => exact hlists.elim

theorem Node.Lists.head {child : Node} {names : List Str} {b : Bool} (h : child.Lists py names b) :
    ∃ rest, names = child.name :: rest := by
  cases child with
  | file name => exact ⟨[], h.1⟩
  | dir name sub =>
    rcases h with ⟨rfl, -⟩ | ⟨rest, rfl, -⟩
    · exact ⟨[], rfl⟩
    · exact ⟨rest, rfl⟩
  | special name => exact h.elim

theorem mem_sortedChildren {children : List Node} {child : Node} :
    child ∈ sortedChildren py children ↔ child ∈ children ∧ isIgnored py child.name = false := by
  unfold sortedChildren
  rw [(List.perm_insertionSort _ _).mem_iff, List.mem_filter]
  simp

theorem sortedChildren_names {children : List Node} (h : (children.map Node.name).Nodup) :
    (sortedChildren py children).Pairwise fun c c' => c.name ≠ c'.name := by
  have hperm : (sortedChildren py children).Perm (children.filter fun p => ¬isIgnored py p.name) := List.perm_insertionSort _ _
  have hfilter : ((children.filter fun p => ¬isIgnored py p.name).map Node.name).Nodup :=
    h.sublist (List.filter_sublist.map _)
  exact List.pairwise_map.1 ((hperm.map Node.name).nodup_iff.2 hfilter)

theorem validateFat83_ok {name : Str} {source : Path} {fatName : Str} (h : validateFat83 py name source = .ok fatName) :
    Fat83Match (py.upper name) ∧ fatName = py.upper name := by
  unfold validateFat83 at h
  dsimp only at h
  split_ifs at h with hbad
  cases h
  exact ⟨hbad, rfl⟩

/-- The image path of a name path below the image directory `img`. -/
def imageOf (py : Python) (img : Str) (names : List Str) : Str :=
  names.foldl (fun img name => imageJoin img (py.upper name)) img

def entryOf (py : Python) (hostDir : Path) (img : Str) (names : List Str) (b : Bool) : ImageEntry :=
  ⟨hostDir ++ names, imageOf py img names, b⟩

theorem entryOf_cons (hostDir : Path) (img name : Str) (names : List Str) (b : Bool) :
    entryOf py hostDir img (name :: names) b = entryOf py (hostDir ++ [name]) (imageJoin img (py.upper name)) names b := by
  unfold entryOf imageOf
  rw [List.append_assoc, List.singleton_append, List.foldl_cons]

theorem visit_file {hostDir : Path} {img name : Str} {l : List ImageEntry} (h : visit py hostDir img (.file name) = .ok l) :
    Fat83Match (py.upper name) ∧ l = [entryOf py hostDir img [name] false] := by
  unfold visit at h
  split at h
  · cases h
  · rename_i fatName hname
    obtain ⟨hfat, rfl⟩ := validateFat83_ok hname
    cases h
    exact ⟨hfat, rfl⟩

theorem visit_special {hostDir : Path} {img name : Str} {l : List ImageEntry}
    (h : visit py hostDir img (.special name) = .ok l) : l = [] := by
  unfold visit at h
  split at h
  · cases h
  · cases h
    rfl

theorem visit_dir {hostDir : Path} {img name : Str} {sub : List Node} {l : List ImageEntry}
    (h : visit py hostDir img (.dir name sub) = .ok l) :
    Fat83Match (py.upper name) ∧ ∃ inner, walk py (hostDir ++ [name]) (imageJoin img (py.upper name)) sub = .ok inner ∧
      l = entryOf py hostDir img [name] true :: inner := by
  unfold visit at h
  split at h
  · cases h
  · rename_i fatName hname
    obtain ⟨hfat, rfl⟩ := validateFat83_ok hname
    dsimp only at h
    split at h
    · cases h
    · rename_i inner hinner
      cases h
      exact ⟨hfat, inner, hinner, rfl⟩

/-- A round adds the entries of what its child lists, with names that were checked. -/
def Spec (py : Python) (child : Node) : Prop :=
  ∀ hostDir img l, visit py hostDir img child = .ok l →
    (∀ e, e ∈ l ↔ ∃ names b, child.Lists py names b ∧ e = entryOf py hostDir img names b) ∧
      ∀ names b, child.Lists py names b → ∀ n ∈ names, Fat83Match (py.upper n)

theorem walk_spec {children : List Node} (hspec : ∀ child ∈ children, Spec py child) {hostDir : Path} {img : Str}
    {entries : List ImageEntry} (h : walk py hostDir img children = .ok entries) :
    (∀ e, e ∈ entries ↔ ∃ names b, Listed py children names b ∧ e = entryOf py hostDir img names b) ∧
      ∀ names b, Listed py children names b → ∀ n ∈ names, Fat83Match (py.upper n) := by
  rw [walk_eq] at h
  obtain ⟨hall, hmem⟩ := addAll_ok h
  constructor
  · intro e
    rw [hmem e]
    constructor
    · rintro ⟨child, hchild, l, hl, he⟩
      obtain ⟨hchild, hname⟩ := mem_sortedChildren.1 hchild
      obtain ⟨names, b, hlists, rfl⟩ := ((hspec child hchild _ _ l hl).1 e).1 he
      exact ⟨names, b, listed_iff.2 ⟨child, hchild, hname, hlists⟩, rfl⟩
    · rintro ⟨names, b, hlisted, rfl⟩
      obtain ⟨child, hchild, hname, hlists⟩ := listed_iff.1 hlisted
      have hsorted := mem_sortedChildren.2 ⟨hchild, hname⟩
      obtain ⟨l, hl⟩ := hall child hsorted
      exact ⟨child, hsorted, l, hl, ((hspec child hchild _ _ l hl).1 _).2 ⟨names, b, hlists, rfl⟩⟩
  · intro names b hlisted
    obtain ⟨child, hchild, hname, hlists⟩ := listed_iff.1 hlisted
    obtain ⟨l, hl⟩ := hall child (mem_sortedChildren.2 ⟨hchild, hname⟩)
    exact (hspec child hchild _ _ l hl).2 names b hlists

theorem visit_spec (child : Node) : Spec py child := by
  induction child using Node.induction with
  | file name =>
    intro hostDir img l h
    obtain ⟨hfat, rfl⟩ := visit_file h
    constructor
    · intro e
      rw [List.mem_singleton]
      constructor
      · rintro rfl
        exact ⟨[name], false, ⟨rfl, rfl⟩, rfl⟩
      · rintro ⟨names, b, ⟨rfl, rfl⟩, rfl⟩
        rfl
    · rintro names b ⟨rfl, rfl⟩
      exact List.forall_mem_singleton.2 hfat
  | special name =>
    intro hostDir img l h
    obtain rfl := visit_special h
    constructor
    · intro e
      constructor
      · intro he
        cases he
      · rintro ⟨names, b, hlists, -⟩
        exact hlists.elim
    · intro names b hlists
      exact hlists.elim
  | dir name sub ih =>
    intro hostDir img l h
    obtain ⟨hfat, inner, hinner, rfl⟩ := visit_dir h
    obtain ⟨hmem, hvalid⟩ := walk_spec ih hinner
    constructor
    · intro e
      rw [List.mem_cons, hmem e]
      constructor
      · rintro (rfl | ⟨names, b, hsub, rfl⟩)
        · exact ⟨[name], true, .inl ⟨rfl, rfl⟩, rfl⟩
        · exact ⟨name :: names, b, .inr ⟨names, rfl, hsub⟩, (entryOf_cons ..).symm⟩
      · rintro ⟨names, b, ⟨rfl, rfl⟩ | ⟨rest, rfl, hsub⟩, rfl⟩
        · exact .inl rfl
        · exact .inr ⟨rest, b, hsub, entryOf_cons ..⟩
    · rintro names b (⟨rfl, rfl⟩ | ⟨rest, rfl, hsub⟩)
      · exact List.forall_mem_singleton.2 hfat
      · exact List.forall_mem_cons.2 ⟨hfat, hvalid rest b hsub⟩

theorem mem_walk {children : List Node} {hostDir : Path} {img : Str} {entries : List ImageEntry}
    (h : walk py hostDir img children = .ok entries) (e : ImageEntry) :
    e ∈ entries ↔ ∃ names b, Listed py children names b ∧ e = entryOf py hostDir img names b :=
  (walk_spec (fun child _ => visit_spec child) h).1 e

theorem listed_fat83 {children : List Node} {hostDir : Path} {img : Str} {entries : List ImageEntry}
    (h : walk py hostDir img children = .ok entries) {names : List Str} {b : Bool} (hl : Listed py children names b) :
    ∀ n ∈ names, Fat83Match (py.upper n) :=
  (walk_spec (fun child _ => visit_spec child) h).2 names b hl

/-- `b` is not `a`, nor a directory that `a` lies in. -/
def Before (a b : ImageEntry) : Prop := ¬b.source <+: a.source

theorem walk_ordered {children : List Node} (hdir : HostDir children)
    (hspec : ∀ child ∈ children, ∀ hostDir img l, visit py hostDir img child = .ok l → l.Pairwise Before)
    {hostDir : Path} {img : Str} {entries : List ImageEntry} (h : walk py hostDir img children = .ok entries) :
    entries.Pairwise Before := by
  rw [walk_eq] at h
  apply addAll_pairwise h
  · intro c hc l hl
    exact hspec c (mem_sortedChildren.1 hc).1 hostDir img l hl
  · apply (sortedChildren_names hdir.names).imp
    intro c c' hne l l' hl hl' x hx y hy hpre
    obtain ⟨names, b, hlists, rfl⟩ := ((visit_spec c _ _ l hl).1 x).1 hx
    obtain ⟨names', b', hlists', rfl⟩ := ((visit_spec c' _ _ l' hl').1 y).1 hy
    obtain ⟨rest, rfl⟩ := hlists.head
    obtain ⟨rest', rfl⟩ := hlists'.head
    -- both paths go on from the same directory, by different names
    have hnames : c'.name :: rest' <+: c.name :: rest := (List.prefix_append_right_inj hostDir).1 hpre
    exact hne (List.cons_prefix_cons.1 hnames).1.symm

theorem visit_ordered (child : Node) :
    (∀ name sub, child = .dir name sub → HostDir sub) → ∀ hostDir img l, visit py hostDir img child = .ok l → l.Pairwise Before := by
  induction child using Node.induction with
  | file name =>
    intro _ hostDir img l h
    obtain ⟨-, rfl⟩ := visit_file h
    exact List.pairwise_singleton _ _
  | special name =>
    intro _ hostDir img l h
    obtain rfl := visit_special h
    exact List.Pairwise.nil
  | dir name sub ih =>
    intro hdir hostDir img l h
    have hsub := hdir name sub rfl
    obtain ⟨-, inner, hinner, rfl⟩ := visit_dir h
    rw [List.pairwise_cons]
    constructor
    · intro e he hpre
      obtain ⟨names, b, hlisted, rfl⟩ := (mem_walk hinner e).1 he
      have hlength : (hostDir ++ [name] ++ names).length ≤ (hostDir ++ [name]).length := hpre.length_le
      have hnil : names.length = 0 := by
        rw [List.length_append] at hlength
        omega
      exact hlisted.ne_nil (List.length_eq_zero_iff.1 hnil)
    · apply walk_ordered hsub _ hinner
      intro c hc
      apply ih c hc
      rintro name' sub' rfl
      exact hsub.inside hc

end Walk

end NioApps.Staging
