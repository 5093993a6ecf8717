import NioApps.Sanity.ImageTree

/-! `collect_entries` maps names to upper case and checks each on its own: two names of one
directory that differ only in case get one image path, and the second file that is copied to
it replaces the first. -/

namespace NioApps.Staging

open Paths

theorem Fat83.chars {s : Str} (h : Fat83 s) {c : Char} (hc : c ∈ s) : isFatChar c = true ∨ c = '.' := by
  obtain ⟨-, -, hext⟩ := h
  rw [← List.takeWhile_append_dropWhile (p := isFatChar) (l := s), List.mem_append] at hc
  rcases hc with hc | hc
  · exact .inl (List.mem_takeWhile_imp hc)
  · rcases hext with hnil | ⟨hdot, -, -, hall⟩
    · rw [hnil] at hc
      cases hc
    · obtain ⟨t, ht⟩ := List.head?_eq_some_iff.1 hdot
      rw [ht, List.mem_cons] at hc
      rcases hc with rfl | hc
      · exact .inr rfl
      · rw [ht] at hall
        exact .inl (List.all_eq_true.1 hall c hc)

theorem Fat83.ne_nil {s : Str} (h : Fat83 s) : s ≠ [] := by
  rintro rfl
  exact absurd h (by decide)

theorem Fat83.no_newline {s : Str} (h : Fat83 s) : s.getLast? ≠ some '\n' := by
  intro hlast
  exact absurd (h.chars (List.mem_of_getLast? hlast)) (by decide)

/-- The string that `$` lets pass has its newline at the end. -/
theorem Fat83Match.ne_nil {s : Str} (h : Fat83Match s) : s ≠ [] := by
  rcases h with h | ⟨hlast, -⟩
  · exact h.ne_nil
  · rintro rfl
    cases hlast

theorem Fat83Match.no_slash {s : Str} (h : Fat83Match s) : '/' ∉ s := by
  intro hmem
  rcases h with h | ⟨hlast, h⟩
  · exact absurd (h.chars hmem) (by decide)
  · obtain ⟨t, rfl⟩ := List.getLast?_eq_some_iff.1 hlast
    rw [List.dropLast_concat] at h
    rw [List.mem_append] at hmem
    rcases hmem with hmem | hmem
    · exact absurd (h.chars hmem) (by decide)
    · exact absurd hmem (by decide)

theorem fat83_iff {s : Str} (h : Fat83Match s) : Fat83 s ↔ s.getLast? ≠ some '\n' := by
  constructor
  · exact Fat83.no_newline
  · intro hlast
    rcases h with h | ⟨hnewline, -⟩
    · exact h
    · exact absurd hnewline hlast

section Images

variable {py : Python}

theorem pieces_imageJoin {img c : Str} (himg : img ≠ []) (hc : '/' ∉ c) :
    pieces '/' (imageJoin img c) = pieces '/' img ++ [c] := by
  unfold imageJoin
  rw [if_neg himg, pieces_append_sep, pieces_of_notMem hc]

theorem pieces_imageOf_below {img : Str} (himg : img ≠ []) {names : List Str}
    (hnames : ∀ n ∈ names, Fat83Match (py.upper n)) : pieces '/' (imageOf py img names) = pieces '/' img ++ names.map py.upper := by
  induction names generalizing img with
  | nil => exact (List.append_nil _).symm
  | cons n names ih =>
    rw [List.forall_mem_cons] at hnames
    have hne : imageJoin img (py.upper n) ≠ [] := by
      unfold imageJoin
      rw [if_neg himg]
      simp
    have hstep : imageOf py img (n :: names) = imageOf py (imageJoin img (py.upper n)) names := rfl
    rw [hstep, ih hne hnames.2, pieces_imageJoin himg hnames.1.no_slash, List.map_cons, List.append_assoc, List.singleton_append]

/-- The components of an image path are the names in upper case. -/
theorem pieces_imageOf {names : List Str} (hne : names ≠ []) (hnames : ∀ n ∈ names, Fat83Match (py.upper n)) :
    pieces '/' (imageOf py [] names) = names.map py.upper := by
  cases names with
  | nil => exact absurd rfl hne
  | cons n names =>
    rw [List.forall_mem_cons] at hnames
    have hstep : imageOf py [] (n :: names) = imageOf py (py.upper n) names := rfl
    rw [hstep, pieces_imageOf_below hnames.1.ne_nil hnames.2, pieces_of_notMem hnames.1.no_slash, List.map_cons,
      List.singleton_append]

theorem imageOf_concat (dir : List Str) (n : Str) : imageOf py [] (dir ++ [n]) = imageJoin (imageOf py [] dir) (py.upper n) := by
  unfold imageOf
  rw [List.foldl_append, List.foldl_cons, List.foldl_nil]

end Images

section Populate

/-- A file stays where it was copied while nothing else is copied there. -/
theorem run_other {entries : List ImageEntry} {path : Str} (hpath : path ∉ entries.map ImageEntry.imagePath)
    (image : Str → Option Path) : (populateImage entries).foldl Command.run image (mtoolsPath path) = image (mtoolsPath path) := by
  induction entries generalizing image with
  | nil => rfl
  | cons e entries ih =>
    rw [List.map_cons, List.mem_cons, not_or] at hpath
    unfold populateImage at ih ⊢
    rw [List.map_cons, List.foldl_cons, ih hpath.2]
    unfold ImageEntry.command
    split_ifs
    · rfl
    · apply Function.update_of_ne
      intro heq
      exact hpath.1 (List.append_cancel_left heq)

theorem run_kept {entries : List ImageEntry} (hnodup : (entries.map ImageEntry.imagePath).Nodup) {e : ImageEntry}
    (he : e ∈ entries) (hfile : e.isDir = false) (image : Str → Option Path) :
    (populateImage entries).foldl Command.run image (mtoolsPath e.imagePath) = some e.source := by
  induction entries generalizing image with
  | nil => cases he
  | cons e' entries ih =>
    rw [List.map_cons, List.nodup_cons] at hnodup
    have hstep : populateImage (e' :: entries) = e'.command :: populateImage entries := rfl
    rw [hstep, List.foldl_cons]
    rcases List.mem_cons.1 he with rfl | he
    · rw [run_other hnodup.1]
      unfold ImageEntry.command
      rw [if_neg (by simp [hfile])]
      exact Function.update_self ..
    · exact ih hnodup.2 he _

end Populate

/-- Every file and directory to be staged has one entry, and none is before its directory's. -/
structure Covered (py : Python) (t : HostTree) (entries : List ImageEntry) : Prop where
  listed : ∀ p b, (∃ names, p = t.path ++ names ∧ Listed py t.children names b) ↔ ∃ e ∈ entries, e.source = p ∧ e.isDir = b
  once : (entries.map ImageEntry.source).Nodup
  dirs_first : entries.Pairwise Before

/-- Nothing is lost, with a pattern for the components of the image paths. -/
structure Staged (pattern : Str → Prop) (py : Python) (t : HostTree) (entries : List ImageEntry) : Prop
    extends Covered py t entries where
  fat83 : ∀ e ∈ entries, ∀ c ∈ pieces '/' e.imagePath, pattern c
  distinct : (entries.map ImageEntry.imagePath).Nodup
  kept : ∀ e ∈ entries, e.isDir = false →
    (populateImage entries).foldl Command.run (fun _ => none) (mtoolsPath e.imagePath) = some e.source

/-- In each directory, what is to be staged has distinct names in upper case. -/
def NoCollision (py : Python) (children : List Node) : Prop :=
  ∀ dir m n b b', Listed py children (dir ++ [m]) b → Listed py children (dir ++ [n]) b' → py.upper m = py.upper n → m = n

/-- No name ends in a newline when it is in upper case. -/
def NoNewline (py : Python) (children : List Node) : Prop :=
  ∀ names b, Listed py children names b → ∀ n ∈ names, (py.upper n).getLast? ≠ some '\n'

section Tree

variable {py : Python}

/-- The directory of what is listed is listed. -/
theorem Listed.parent {children : List Node} {dir : List Str} {n : Str} {b : Bool} (h : Listed py children (dir ++ [n]) b)
    (hdir : dir ≠ []) : Listed py children dir true := by
  induction dir generalizing children with
  | nil => exact absurd rfl hdir
  | cons d dir ih =>
    rw [List.cons_append] at h
    obtain ⟨child, hmem, hname, hlists⟩ := listed_iff.1 h
    cases child with
    | file name => simp [Node.Lists] at hlists
    | special name => exact hlists.elim
    | dir name sub =>
      rcases hlists with ⟨heq, -⟩ | ⟨rest, heq, hsub⟩
      · simp at heq
      · obtain ⟨rfl, rfl⟩ := List.cons.inj heq
        by_cases hnil : dir = []
        · subst hnil
          exact .dir hmem hname
        · exact .inside hmem hname (ih hsub hnil)

theorem NoCollision.injective {children : List Node} (h : NoCollision py children) {names names' : List Str} {b b' : Bool}
    (hn : Listed py children names b) (hn' : Listed py children names' b') (heq : names.map py.upper = names'.map py.upper) :
    names = names' := by
  induction names using List.reverseRecOn generalizing names' b b' with
  | nil => exact absurd rfl hn.ne_nil
  | append_singleton dir m ih =>
    rcases List.eq_nil_or_concat names' with rfl | ⟨dir', m', rfl⟩
    · exact absurd rfl hn'.ne_nil
    · rw [List.concat_eq_append] at *
      rw [List.map_append, List.map_append] at heq
      obtain ⟨hdir, hlast⟩ := List.append_inj' heq rfl
      have hsame : dir = dir' := by
        by_cases hnil : dir = []
        · subst hnil
          exact (List.map_eq_nil_iff.1 hdir.symm).symm
        · have hnil' : dir' ≠ [] := by
            rintro rfl
            exact hnil (List.map_eq_nil_iff.1 hdir)
          exact ih (hn.parent hnil) (hn'.parent hnil') hdir
      subst hsame
      rw [h dir m m' b b' hn hn' (List.cons.inj hlast).1]

end Tree

section Collect

variable {py : Python} {t : HostTree} {entries : List ImageEntry}

theorem covered (h : collectEntries py t.path t.children = .ok entries) : Covered py t entries := by
  have hmem := mem_walk h
  have hbefore : entries.Pairwise Before := by
    apply walk_ordered t.distinct _ h
    intro child hchild
    apply visit_ordered child
    rintro name sub rfl
    exact t.distinct.inside hchild
  refine ⟨?_, ?_, hbefore⟩
  · intro p b
    constructor
    · rintro ⟨names, rfl, hlisted⟩
      exact ⟨_, (hmem _).2 ⟨names, b, hlisted, rfl⟩, rfl, rfl⟩
    · rintro ⟨e, he, rfl, rfl⟩
      obtain ⟨names, b, hlisted, rfl⟩ := (hmem e).1 he
      exact ⟨names, rfl, hlisted⟩
  · rw [List.Nodup, List.pairwise_map]
    apply hbefore.imp
    intro a b hab heq
    exact hab (heq ▸ List.prefix_refl _)

/-- Whatever the pattern, the entries are staged when it accepts the names and none collide. -/
theorem staged_iff (pattern : Str → Prop) (h : collectEntries py t.path t.children = .ok entries) :
    Staged pattern py t entries ↔
      NoCollision py t.children ∧ ∀ names b, Listed py t.children names b → ∀ n ∈ names, pattern (py.upper n) := by
  have hmem := mem_walk h
  have hpieces : ∀ {names b}, Listed py t.children names b → pieces '/' (imageOf py [] names) = names.map py.upper :=
    fun hlisted => pieces_imageOf hlisted.ne_nil (listed_fat83 h hlisted)
  constructor
  · intro hstaged
    constructor
    · intro dir m n b b' hm hn heq
      have hpath : imageOf py [] (dir ++ [m]) = imageOf py [] (dir ++ [n]) := by
        rw [imageOf_concat, imageOf_concat, heq]
      have hsame := List.inj_on_of_nodup_map hstaged.distinct ((hmem _).2 ⟨_, b, hm, rfl⟩) ((hmem _).2 ⟨_, b', hn, rfl⟩) hpath
      have hnames : dir ++ [m] = dir ++ [n] := List.append_cancel_left (congrArg ImageEntry.source hsame)
      simpa using hnames
    · intro names b hlisted n hn
      apply hstaged.fat83 _ ((hmem _).2 ⟨names, b, hlisted, rfl⟩)
      have hcomponents : pieces '/' (entryOf py t.path [] names b).imagePath = names.map py.upper := hpieces hlisted
      rw [hcomponents]
      exact List.mem_map_of_mem hn
  · rintro ⟨hnocollision, hpattern⟩
    have hcovered := covered h
    have hdistinct : (entries.map ImageEntry.imagePath).Nodup := by
      rw [List.Nodup, List.pairwise_map]
      apply hcovered.dirs_first.imp_of_mem
      intro x y hx hy hxy heq
      obtain ⟨names, b, hn, rfl⟩ := (hmem x).1 hx
      obtain ⟨names', b', hn', rfl⟩ := (hmem y).1 hy
      have hupper : names.map py.upper = names'.map py.upper := by
        rw [← hpieces hn, ← hpieces hn']
        exact congrArg (pieces '/') heq
      have hsame := hnocollision.injective hn hn' hupper
      subst hsame
      exact hxy (List.prefix_refl _)
    refine ⟨hcovered, ?_, hdistinct, fun e he hfile => run_kept hdistinct he hfile _⟩
    intro e he c hc
    obtain ⟨names, b, hn, rfl⟩ := (hmem e).1 he
    have hcomponents : pieces '/' (entryOf py t.path [] names b).imagePath = names.map py.upper := hpieces hn
    rw [hcomponents] at hc
    obtain ⟨n, hname, rfl⟩ := List.mem_map.1 hc
    exact hpattern names b hn n hname

end Collect

theorem image_entries (py : Python) (t : HostTree) {entries : List ImageEntry}
    (h : collectEntries py t.path t.children = .ok entries) :
    Covered py t entries ∧ (Staged Fat83Match py t entries ↔ NoCollision py t.children) ∧
      (Staged Fat83 py t entries ↔ NoCollision py t.children ∧ NoNewline py t.children) := by
  refine ⟨covered h, ?_, ?_⟩
  · rw [staged_iff Fat83Match h]
    exact and_iff_left fun names b hlisted => listed_fat83 h hlisted
  · rw [staged_iff Fat83 h]
    apply and_congr_right
    intro _
    constructor
    · intro hfat names b hlisted n hn
      exact (hfat names b hlisted n hn).no_newline
    · intro hnewline names b hlisted n hn
      exact (fat83_iff (listed_fat83 h hlisted n hn)).2 (hnewline names b hlisted n hn)

/-- On names of ASCII characters. -/
def asciiPython : Python := ⟨List.map Char.toUpper, List.map Char.toLower, fun s => ['\''] ++ s ++ ['\'']⟩

/-- A directory with a file below it, and one that is ignored. -/
def smallTree : HostTree where
  path := ["in".toList]
  children := [.file "a.txt".toList, .file "a.txt~".toList, .dir "b".toList [.file "a.txt".toList]]
  distinct := by
    refine .intro (by decide) ?_
    intro name sub hmem
    obtain ⟨rfl, rfl⟩ : name = "b".toList ∧ sub = [.file "a.txt".toList] := by simpa using hmem
    refine .intro (by decide) ?_
    intro name sub hmem
    simp at hmem

theorem image_entries_small :
    let entries : List ImageEntry := [⟨["in".toList, "b".toList], "B".toList, true⟩,
      ⟨["in".toList, "b".toList, "a.txt".toList], "B/A.TXT".toList, false⟩, ⟨["in".toList, "a.txt".toList], "A.TXT".toList, false⟩]
    collectEntries asciiPython smallTree.path smallTree.children = .ok entries ∧ Covered asciiPython smallTree entries ∧
      (Staged Fat83Match asciiPython smallTree entries ↔ NoCollision asciiPython smallTree.children) ∧
      (Staged Fat83 asciiPython smallTree entries ↔
        NoCollision asciiPython smallTree.children ∧ NoNewline asciiPython smallTree.children) := by
  intro entries
  have h : collectEntries asciiPython smallTree.path smallTree.children = .ok entries := by decide
  exact ⟨h, image_entries asciiPython smallTree h⟩

/-- Two files whose names differ in case. -/
def twoCases : HostTree where
  path := ["in".toList]
  children := [.file "a.txt".toList, .file "A.TXT".toList]
  distinct := by
    refine .intro (by decide) ?_
    intro name sub hmem
    simp at hmem

/-- Both are accepted and have one image path: `a.txt` is lost. -/
theorem second_copy_replaces :
    let lower : ImageEntry := ⟨["in".toList, "a.txt".toList], "A.TXT".toList, false⟩
    let upper : ImageEntry := ⟨["in".toList, "A.TXT".toList], "A.TXT".toList, false⟩
    collectEntries asciiPython twoCases.path twoCases.children = .ok [lower, upper] ∧
      populateImage [lower, upper] = [.mcopy lower.source "::/A.TXT".toList, .mcopy upper.source "::/A.TXT".toList] ∧
      (populateImage [lower, upper]).foldl Command.run (fun _ => none) "::/A.TXT".toList = some upper.source ∧
      ¬Staged Fat83Match asciiPython twoCases [lower, upper] ∧ ¬Staged Fat83 asciiPython twoCases [lower, upper] := by
  intro lower upper
  refine ⟨by decide, by decide, by decide, ?_, ?_⟩
  · intro h
    exact absurd h.distinct (by decide)
  · intro h
    exact absurd h.distinct (by decide)

end NioApps.Staging
