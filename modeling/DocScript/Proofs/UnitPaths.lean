import DocScript.Path
import Mathlib.Data.List.Basic
import Mathlib.Data.List.TakeWhile

/-!
# Paths of units

A reference is made a path in two steps: it is taken relative to a root, and then the
extension of units is added. Whether it is to be added is seen from the reference alone, but it
is added to the joined path. The two views of the last component agree for references that
have a component of their own. One that has none, as it is made of slashes and single dots
only, leaves the name of the root itself in the last place.

A directory is a path that a name can follow directly: it ends with a slash or is empty.

**Results.**
* `Path.body_append`, `Path.lastComponent_append`: the last component of a path behind a
  directory.
* `Path.body_asDirectory_append`: the last component behind a reference without one.
* `Path.EndsIn.fileName?_eq`: the file name of a path that ends in an ordinary name.
* `resolve_stays_below_root_iff`: where the extension ends up, for every relative reference.
* `extension_may_be_left_out`: a reference with and without the extension of units.
-/

namespace DocScript
namespace Path

variable {path dir name root reference extension : Chars}

/-- A path that a name can follow directly. -/
def IsDirectory (path : Chars) : Prop :=
  ∀ c ∈ path.getLast?, c = '/'

/-- A path with a slash at its end, unless it is empty. -/
def asDirectory (path : Chars) : Chars :=
  if path.isEmpty || path.getLast? == some '/' then path else path ++ ['/']

/-- A path that is made of slashes and single dots only, so that it has no component. -/
def IsBare (path : Chars) : Prop :=
  body path = [] ∨ body path = ['.']

instance (path : Chars) : Decidable (IsBare path) :=
  inferInstanceAs (Decidable (_ ∨ _))

section Directories

theorem isDirectory_nil : IsDirectory [] := by
  intro c hc
  cases hc

theorem isDirectory_concat (path : Chars) : IsDirectory (path ++ ['/']) := by
  intro c hc
  simpa [eq_comm] using hc

theorem IsDirectory.cons (h : IsDirectory dir) : IsDirectory ('/' :: dir) := by
  intro c hc
  cases dir with
  | nil =>
      simpa [eq_comm] using hc
  | cons d rest =>
      exact h c (by simpa [List.getLast?_cons_cons] using hc)

theorem IsDirectory.append (h : IsDirectory dir) (hpath : IsDirectory path) :
    IsDirectory (dir ++ path) := by
  intro c hc
  rw [List.getLast?_append] at hc
  cases hlast : path.getLast? with
  | none =>
      rw [hlast, Option.none_or] at hc
      exact h c hc
  | some =>
      rw [hlast, Option.some_or] at hc
      exact hpath c (hlast ▸ hc)

/-- Nothing is left of a directory, read backwards, up to its last slash. -/
theorem IsDirectory.takeWhile_reverse (h : IsDirectory dir) :
    dir.reverse.takeWhile (· ≠ '/') = [] := by
  cases hreverse : dir.reverse with
  | nil =>
      rfl
  | cons c rest =>
      have hlast : dir.getLast? = some c := by
        rw [← List.head?_reverse, hreverse]
        rfl
      exact List.takeWhile_cons_of_neg (by simp [h c hlast])

/-- A root other than the empty one is made to end with one slash, which it may have already. -/
theorem asDirectory_cases (root : Chars) :
    root = [] ∧ asDirectory root = [] ∨
      ∃ dir, asDirectory root = dir ++ ['/'] ∧ (root = dir ∨ root = dir ++ ['/']) := by
  unfold asDirectory
  rcases List.eq_nil_or_concat' root with rfl | ⟨dir, c, rfl⟩
  · exact .inl ⟨rfl, rfl⟩
  · by_cases hc : c = '/'
    · subst hc
      exact .inr ⟨dir, by simp, .inr rfl⟩
    · exact .inr ⟨dir ++ [c], by simp [hc], .inl rfl⟩

theorem isDirectory_asDirectory (root : Chars) : IsDirectory (asDirectory root) := by
  obtain ⟨-, hroot⟩ | ⟨dir, hroot, -⟩ := asDirectory_cases root
  · rw [hroot]
    exact isDirectory_nil
  · rw [hroot]
    exact isDirectory_concat dir

/-- A relative reference is put after the root as a directory. -/
theorem join_of_relative (h : isAbsolute reference = false) :
    join root reference = asDirectory root ++ reference := by
  unfold join asDirectory
  rw [if_neg (by simp [h])]
  split
  · rfl
  · rw [List.append_assoc]
    rfl

theorem join_append (h : reference ≠ []) (more : Chars) :
    join root (reference ++ more) = join root reference ++ more := by
  obtain ⟨c, rest, rfl⟩ := List.exists_cons_of_ne_nil h
  have habsolute : isAbsolute (c :: rest ++ more) = isAbsolute (c :: rest) := by
    unfold isAbsolute
    split <;> simp_all
  unfold join
  rw [habsolute]
  split
  · rfl
  · split <;> simp

end Directories

section Bodies

theorem dropTrailing_append (more : Chars) (hempty : dropTrailing path ≠ [])
    (hdot : dropTrailing path ≠ ['.']) :
    dropTrailing (path ++ more) = dropTrailing path ++ more := by
  fun_induction dropTrailing path with
  | case1 rest ih =>
      exact ih hempty hdot
  | case2 rest ih =>
      exact ih hempty hdot
  | case3 rest hslash hdotSlash =>
      rcases rest with _ | ⟨c, rest⟩
      · exact absurd rfl hempty
      · rw [List.cons_append]
        rw [dropTrailing]
        · intro tail heq
          exact hslash rest (by simp_all)
        · intro tail heq
          rcases rest with _ | ⟨d, rest⟩
          · simp_all
          · exact hdotSlash rest (by simp_all)

theorem dropTrailing_append_slash (more : Chars)
    (h : dropTrailing path = [] ∨ dropTrailing path = ['.']) :
    dropTrailing (path ++ '/' :: more) = dropTrailing more := by
  fun_induction dropTrailing path with
  | case1 rest ih =>
      exact ih h
  | case2 rest ih =>
      exact ih h
  | case3 rest hslash hdotSlash =>
      rcases h with rfl | rfl
      · rfl
      · rfl

/-- What does not end with a slash or a single dot is not cut. -/
theorem dropTrailing_eq_self (hslash : ∀ rest, path ≠ '/' :: rest)
    (hdot : ∀ rest, path ≠ '.' :: '/' :: rest) : dropTrailing path = path := by
  rw [dropTrailing]
  · exact hslash
  · exact hdot

theorem body_append (dir : Chars) (h : ¬ IsBare path) : body (dir ++ path) = dir ++ body path := by
  unfold IsBare body at h
  rw [not_or] at h
  unfold body
  rw [List.reverse_append, dropTrailing_append]
  · simp
  · simpa using h.1
  · intro hdot
    exact h.2 (by rw [hdot]; rfl)

/-- A reference that names nothing leads to the root itself. -/
theorem body_append_slash (dir : Chars) (h : IsBare path) :
    body (dir ++ '/' :: path) = body dir := by
  unfold IsBare body at h
  unfold body
  have hreverse : (dir ++ '/' :: path).reverse = path.reverse ++ '/' :: dir.reverse := by
    simp
  rw [hreverse, dropTrailing_append_slash]
  rcases h with h | h
  · exact .inl (List.reverse_eq_nil_iff.mp h)
  · exact .inr (by rw [← List.reverse_reverse (dropTrailing _), h]; rfl)

theorem dropTrailing_ne_slash (path rest : Chars) : dropTrailing path ≠ '/' :: rest := by
  fun_induction dropTrailing path with
  | case1 _ ih =>
      exact ih
  | case2 _ ih =>
      exact ih
  | case3 path hslash _ =>
      exact fun heq => hslash rest heq

/-- What is dropped are slashes and dots, up to a slash. -/
theorem exists_append_dropTrailing (path : Chars) :
    ∃ trailing, path = trailing ++ dropTrailing path ∧ IsDirectory trailing := by
  fun_induction dropTrailing path with
  | case1 rest ih =>
      obtain ⟨trailing, hrest, hdir⟩ := ih
      refine ⟨'/' :: trailing, congrArg _ hrest, ?_⟩
      exact hdir.cons
  | case2 rest ih =>
      obtain ⟨trailing, hrest, hdir⟩ := ih
      refine ⟨'.' :: '/' :: trailing, congrArg _ (congrArg _ hrest), ?_⟩
      intro c hc
      exact hdir.cons c (by simpa using hc)
  | case3 rest _ _ =>
      exact ⟨[], rfl, isDirectory_nil⟩

/-- What is cut from the end of a path starts with a slash. -/
theorem exists_body_append (path : Chars) :
    ∃ trailing, path = body path ++ trailing ∧
      (trailing = [] ∨ ∃ more, trailing = '/' :: more) := by
  obtain ⟨trailing, hpath, hdir⟩ := exists_append_dropTrailing path.reverse
  refine ⟨trailing.reverse, ?_, ?_⟩
  · rw [body, ← List.reverse_append, ← hpath, List.reverse_reverse]
  · rcases List.eq_nil_or_concat' trailing with rfl | ⟨init, c, rfl⟩
    · exact .inl rfl
    · refine .inr ⟨init.reverse, ?_⟩
      rw [List.reverse_append, hdir c (by simp)]
      rfl

/-- A root with a component of its own stands before a slash in every path below it. -/
theorem exists_asDirectory_eq (h : body root ≠ []) :
    ∃ more, asDirectory root = body root ++ '/' :: more := by
  obtain ⟨trailing, hroot, htrailing⟩ := exists_body_append root
  obtain ⟨rfl, -⟩ | ⟨dir, hdir, hcut⟩ := asDirectory_cases root
  · exact absurd rfl h
  · rw [hdir]
    rcases hcut with rfl | hcut
    · rcases htrailing with rfl | ⟨more, rfl⟩
      · exact ⟨[], by rw [← hroot.trans (List.append_nil _)]⟩
      · exact ⟨more ++ ['/'], by rw [← List.cons_append, ← List.append_assoc, ← hroot]⟩
    · rw [← hcut]
      rcases htrailing with rfl | ⟨more, rfl⟩
      · -- What is left of a path when it has been cut does not end with a slash.
        have hbody : body root = dir ++ ['/'] := by
          rw [← hcut, ← hroot.trans (List.append_nil _)]
        have hreverse := congrArg List.reverse hbody
        rw [body, List.reverse_reverse, List.reverse_append] at hreverse
        exact absurd hreverse (dropTrailing_ne_slash _ _)
      · exact ⟨more, hroot⟩

end Bodies

section FileNames

theorem slash_notMem_lastComponent (path : Chars) : '/' ∉ lastComponent path := by
  intro hmem
  have hne := List.mem_takeWhile_imp (List.mem_reverse.mp hmem)
  simp at hne

theorem exists_directory (path : Chars) :
    ∃ dir, body path = dir ++ lastComponent path ∧ IsDirectory dir := by
  refine ⟨((body path).reverse.dropWhile (· ≠ '/')).reverse, ?_, ?_⟩
  · rw [lastComponent, ← List.reverse_append, List.takeWhile_append_dropWhile,
      List.reverse_reverse]
  · intro c hc
    rw [List.getLast?_reverse] at hc
    have hnot := List.head?_dropWhile_not (· ≠ '/') (body path).reverse
    rw [Option.mem_def.mp hc] at hnot
    simpa using hnot

/-- A path that names something has its own last component in every directory. -/
theorem lastComponent_append (hdir : IsDirectory dir) (h : ¬ IsBare path) :
    lastComponent (dir ++ path) = lastComponent path := by
  unfold lastComponent
  rw [body_append dir h, List.reverse_append, List.takeWhile_append, hdir.takeWhile_reverse]
  split
  · rename_i hall
    rw [List.append_nil, (List.takeWhile_prefix _).eq_of_length hall]
  · rfl

/-- A path that names something has its own file name in every directory. -/
theorem fileName?_append (hdir : IsDirectory dir) (h : ¬ IsBare path) :
    fileName? (dir ++ path) = fileName? path := by
  unfold fileName?
  rw [lastComponent_append hdir h]

/--
A last component is a file name unless it is empty or made of dots that stand for a
directory.
-/
theorem fileName?_eq_some_iff :
    fileName? path = some name ↔
      lastComponent path = name ∧ name ≠ [] ∧ name ≠ ['.'] ∧ name ≠ ['.', '.'] := by
  simp only [fileName?]
  constructor
  · intro h
    split at h
    · cases h
    · rename_i hnot
      cases h
      exact ⟨rfl, by tauto⟩
  · rintro ⟨rfl, hname⟩
    rw [if_neg (by tauto)]

theorem fileName?_eq_none_of_isBare (h : IsBare path) : fileName? path = none := by
  unfold fileName? lastComponent
  rcases h with h | h
  · rw [h]
    rfl
  · rw [h]
    rfl

/-- The extension of a name follows its last dot, which is not its first character. -/
theorem splitName_cases (name : Chars) :
    '.' ∉ name.tail ∧ splitName name = (name, none) ∨
      ∃ stem suffix, stem ≠ [] ∧ '.' ∉ suffix ∧ name = stem ++ '.' :: suffix ∧
        splitName name = (stem, some suffix) := by
  have hcut : name.reverse.takeWhile (· ≠ '.') ++ name.reverse.dropWhile (· ≠ '.') =
      name.reverse :=
    List.takeWhile_append_dropWhile
  have hafter : '.' ∉ name.reverse.takeWhile (· ≠ '.') := by
    intro hmem
    simpa using List.mem_takeWhile_imp hmem
  unfold splitName
  generalize name.reverse.takeWhile (· ≠ '.') = after at hcut hafter ⊢
  have hdot := List.head?_dropWhile_not (· ≠ '.') name.reverse
  cases hrest : name.reverse.dropWhile (· ≠ '.') with
  | nil =>
      rw [hrest, List.append_nil] at hcut
      have hname : '.' ∉ name := by
        rw [← List.mem_reverse, ← hcut]
        exact hafter
      exact .inl ⟨fun hmem => hname (List.mem_of_mem_tail hmem), rfl⟩
  | cons c before =>
      rw [hrest] at hcut hdot
      obtain rfl : c = '.' := by
        simpa using hdot
      have hname : name = before.reverse ++ '.' :: after.reverse := by
        rw [← List.reverse_reverse name, ← hcut]
        simp
      cases before with
      | nil =>
          refine .inl ⟨?_, rfl⟩
          rw [hname]
          simpa using hafter
      | cons d before =>
          exact .inr ⟨_, _, by simp, by simpa using hafter, hname, rfl⟩

theorem stem_isPrefix (name : Chars) : (splitName name).1 <+: name := by
  obtain ⟨-, hsplit⟩ | ⟨stem, suffix, -, -, hname, hsplit⟩ := splitName_cases name
  · refine ⟨[], ?_⟩
    rw [hsplit, List.append_nil]
  · rw [hsplit, hname]
    exact List.prefix_append _ _

theorem splitName_of_notMem (h : '.' ∉ name.tail) : splitName name = (name, none) := by
  obtain ⟨-, hsplit⟩ | ⟨stem, suffix, hstem, -, hname, -⟩ := splitName_cases name
  · exact hsplit
  · rw [hname, List.tail_append_of_ne_nil hstem] at h
    simp at h

/-- A file name has no extension if there is no dot after its first character. -/
theorem extension?_eq_none_iff :
    extension? path = none ↔ ∀ name, fileName? path = some name → '.' ∉ name.tail := by
  unfold extension?
  cases fileName? path with
  | none =>
      simp
  | some name =>
      obtain ⟨hplain, hsplit⟩ | ⟨stem, suffix, hstem, -, hname, hsplit⟩ := splitName_cases name
      · simp [hsplit, hplain]
      · have hmem : '.' ∈ name.tail := by
          rw [hname, List.tail_append_of_ne_nil hstem]
          simp
        simp [hsplit, hmem]

/-- An extension takes the place of the one that the file name has. -/
theorem withExtension_of_fileName (hname : fileName? path = some name)
    (hbody : body path = dir ++ name) (hextension : extension ≠ []) :
    withExtension path extension = dir ++ (splitName name).1 ++ '.' :: extension := by
  unfold withExtension
  simp only [hname, hbody]
  rw [if_neg (by simpa using hextension)]
  simp

/-- Only the file name counts for the extension, and where it ends. -/
theorem withExtension_congr {other : Chars} (hbody : body path = body other)
    (hname : fileName? path = some name) :
    withExtension path extension = withExtension other extension := by
  have hother : fileName? other = some name := by
    rw [← hname]
    unfold fileName? lastComponent
    rw [hbody]
  unfold withExtension
  simp only [hname, hother, hbody]

end FileNames

/-- A path that ends in an ordinary name, which is neither empty nor a single or double dot. -/
structure EndsIn (path name : Chars) : Prop where
  follows : ∃ dir, path = dir ++ name ∧ IsDirectory dir
  slashless : '/' ∉ name
  ordinary : name ≠ [] ∧ name ≠ ['.'] ∧ name ≠ ['.', '.']

namespace EndsIn

theorem ne_nil (h : EndsIn path name) : path ≠ [] := by
  obtain ⟨dir, rfl, -⟩ := h.follows
  exact fun hnil => h.ordinary.1 (List.append_eq_nil_iff.mp hnil).2

theorem body_eq (h : EndsIn path name) : body path = path := by
  obtain ⟨⟨dir, rfl, -⟩, hslash, hempty, hdot, -⟩ := h
  unfold body
  rw [dropTrailing_eq_self, List.reverse_reverse]
  all_goals
    rcases List.eq_nil_or_concat' name with rfl | ⟨init, c, rfl⟩
    · exact absurd rfl hempty
  · intro rest heq
    simp_all
  · intro rest heq
    rcases List.eq_nil_or_concat' init with rfl | ⟨init, d, rfl⟩
    · simp_all
    · simp_all

theorem lastComponent_eq (h : EndsIn path name) : lastComponent path = name := by
  unfold lastComponent
  rw [h.body_eq]
  obtain ⟨⟨dir, rfl, hdir⟩, hslash, -⟩ := h
  rw [List.reverse_append, List.takeWhile_append_of_pos, hdir.takeWhile_reverse]
  · simp
  · intro c hc
    simp only [ne_eq, decide_not, Bool.not_eq_eq_eq_not, Bool.not_true, decide_eq_false_iff_not]
    rintro rfl
    exact hslash (List.mem_reverse.mp hc)

theorem fileName?_eq (h : EndsIn path name) : fileName? path = some name :=
  fileName?_eq_some_iff.mpr ⟨h.lastComponent_eq, h.ordinary⟩

/-- What is taken relative to a root keeps its last name. -/
theorem join (h : EndsIn path name) (root : Chars) : EndsIn (Path.join root path) name := by
  cases habsolute : isAbsolute path with
  | true =>
      rw [Path.join, if_pos habsolute]
      exact h
  | false =>
      rw [join_of_relative habsolute]
      obtain ⟨⟨dir, rfl, hdir⟩, hslash, hordinary⟩ := h
      refine ⟨⟨asDirectory root ++ dir, (List.append_assoc _ _ _).symm, ?_⟩, hslash, hordinary⟩
      exact (isDirectory_asDirectory root).append hdir

/-- A longer file name is still a file name that the path ends in. -/
theorem extend (h : EndsIn path name) (hextension : '/' ∉ extension) :
    EndsIn (path ++ '.' :: extension) (name ++ '.' :: extension) := by
  obtain ⟨⟨dir, rfl, hdir⟩, hslash, hempty, hdot, -⟩ := h
  refine ⟨⟨dir, List.append_assoc _ _ _, hdir⟩, by simp [hslash, hextension], ?_⟩
  obtain ⟨c, rest, rfl⟩ := List.exists_cons_of_ne_nil hempty
  refine ⟨by simp, by simp, ?_⟩
  intro hdots
  cases rest with
  | nil =>
      exact hdot (by simp_all)
  | cons d rest =>
      simp at hdots

/-- The extension is added at the end of a name that has none. -/
theorem withExtension_eq (h : EndsIn path name) (hnone : extension? path = none)
    (hextension : extension ≠ []) : withExtension path extension = path ++ '.' :: extension := by
  have hplain := extension?_eq_none_iff.mp hnone name h.fileName?_eq
  obtain ⟨dir, hpath, -⟩ := h.follows
  rw [withExtension_of_fileName h.fileName?_eq (h.body_eq.trans hpath) hextension,
    splitName_of_notMem hplain, ← hpath]

end EndsIn

section Resolving

/-- A reference with an extension after its last component, if that is a file name without one. -/
def extended (extension reference : Chars) : Chars :=
  if (fileName? reference).isSome && (extension? reference).isNone then
    body reference ++ '.' :: extension
  else reference

theorem withExtension_of_fileName_none (h : fileName? path = none) :
    withExtension path extension = path := by
  simp [withExtension, h]

/-- A reference that has an extension is not given another one. -/
theorem resolve_of_extension?_ne_none (h : extension? reference ≠ none) :
    resolve root extension reference = join root reference := by
  have htakes : takesExtension extension reference = false := by
    simp [takesExtension, h]
  simp [resolve, htakes]

theorem resolve_of_extension?_eq_none (hextension : extension ≠ [])
    (h : extension? reference = none) :
    resolve root extension reference = withExtension (join root reference) extension := by
  have htakes : takesExtension extension reference = true := by
    simp [takesExtension, h, hextension]
  simp [resolve, htakes]

/-- A reference with a component of its own is extended just as it would be without the root. -/
theorem resolve_of_not_isBare (hextension : extension ≠ [])
    (hrelative : isAbsolute reference = false) (h : ¬ IsBare reference) :
    resolve root extension reference = asDirectory root ++ extended extension reference := by
  have hfile := fileName?_append (isDirectory_asDirectory root) h
  unfold extended
  cases hsuffix : extension? reference with
  | some suffix =>
      rw [resolve_of_extension?_ne_none (by simp [hsuffix]), join_of_relative hrelative]
      simp
  | none =>
      rw [resolve_of_extension?_eq_none hextension hsuffix, join_of_relative hrelative]
      cases hname : fileName? reference with
      | none =>
          rw [withExtension_of_fileName_none (hfile.trans hname)]
          simp
      | some name =>
          obtain ⟨dir, hbody, -⟩ := exists_directory reference
          rw [(fileName?_eq_some_iff.mp hname).1] at hbody
          have hjoined :
              body (asDirectory root ++ reference) = asDirectory root ++ dir ++ name := by
            rw [body_append _ h, hbody, List.append_assoc]
          rw [withExtension_of_fileName (hfile.trans hname) hjoined hextension,
            splitName_of_notMem (extension?_eq_none_iff.mp hsuffix name hname), hbody]
          simp

/-- A reference without a component leaves that of the root in the last place. -/
theorem body_asDirectory_append (hroot : root ≠ []) (h : IsBare reference) :
    body (asDirectory root ++ reference) = body root := by
  obtain ⟨hempty, -⟩ | ⟨dir, hdir, hcut⟩ := asDirectory_cases root
  · exact absurd hempty hroot
  · rw [hdir, List.append_assoc]
    rcases hcut with rfl | rfl
    · exact body_append_slash root h
    · exact (body_append_slash dir h).trans (body_append_slash dir (.inl rfl)).symm

theorem fileName?_asDirectory_append (root : Chars) (h : IsBare reference) :
    fileName? (asDirectory root ++ reference) = fileName? root := by
  by_cases hroot : root = []
  · subst hroot
    exact fileName?_eq_none_of_isBare h
  · unfold fileName? lastComponent
    rw [body_asDirectory_append hroot h]

/-- A reference that names nothing gives the extension to the root, if that has a file name. -/
theorem resolve_of_isBare (hextension : extension ≠ [])
    (hrelative : isAbsolute reference = false) (h : IsBare reference) :
    resolve root extension reference =
      if (fileName? root).isSome then withExtension root extension
      else asDirectory root ++ reference := by
  have hfile := fileName?_asDirectory_append root h
  have hsuffix : extension? reference = none := by
    simp [extension?, fileName?_eq_none_of_isBare h]
  rw [resolve_of_extension?_eq_none hextension hsuffix, join_of_relative hrelative]
  cases hname : fileName? root with
  | none =>
      exact withExtension_of_fileName_none (hfile.trans hname)
  | some name =>
      have hroot : root ≠ [] := by
        rintro rfl
        cases hname
      exact withExtension_congr (body_asDirectory_append hroot h) (hfile.trans hname)

/-- With another extension, the root itself is no longer a directory of the path. -/
theorem not_asDirectory_isPrefix (hextension : extension ≠ []) (hfits : '/' ∉ extension)
    (h : (fileName? root).isSome) : ¬ asDirectory root <+: withExtension root extension := by
  obtain ⟨name, hname⟩ := Option.isSome_iff_exists.mp h
  obtain ⟨dir, hbody, -⟩ := exists_directory root
  obtain ⟨hlast, hempty, -⟩ := fileName?_eq_some_iff.mp hname
  rw [hlast] at hbody
  have hnonempty : body root ≠ [] := by
    simp [hbody, hempty]
  obtain ⟨more, hmore⟩ := exists_asDirectory_eq hnonempty
  rw [withExtension_of_fileName hname hbody hextension, hmore, hbody]
  rintro ⟨rest, heq⟩
  simp only [List.append_assoc, List.append_cancel_left_eq] at heq
  have hslash : '/' ∈ (splitName name).1 ++ '.' :: extension := by
    rw [← heq]
    simp
  have hstem : '/' ∉ (splitName name).1 := by
    intro hmem
    apply slash_notMem_lastComponent root
    rw [hlast]
    exact (stem_isPrefix name).mem hmem
  simp [hstem, hfits] at hslash

end Resolving

end Path

section

open DocScript.Path

/--
The extension of units is put after the last component of the reference, and what is resolved
lies below the root, unless the reference has no component while the root has a name. Then it is
the name of the root that the extension is put after, or that loses its own extension to it.
-/
theorem resolve_stays_below_root_iff (root extension reference : Chars)
    (hextension : extension ≠ []) (hfits : fitsFileName extension = true)
    (hrelative : isAbsolute reference = false) :
    (asDirectory root <+: resolve root extension reference ↔
      ¬ (IsBare reference ∧ (fileName? root).isSome)) ∧
    (¬ (IsBare reference ∧ (fileName? root).isSome) →
      resolve root extension reference = asDirectory root ++ extended extension reference) ∧
    (IsBare reference → (fileName? root).isSome →
      resolve root extension reference = withExtension root extension) := by
  have hslash : '/' ∉ extension := by
    simpa [fitsFileName] using hfits
  have hbelow (h : ¬ (IsBare reference ∧ (fileName? root).isSome)) :
      resolve root extension reference = asDirectory root ++ extended extension reference := by
    by_cases hbare : IsBare reference
    · have hroot : ¬ (fileName? root).isSome := fun hroot => h ⟨hbare, hroot⟩
      rw [resolve_of_isBare hextension hrelative hbare, if_neg hroot, extended,
        fileName?_eq_none_of_isBare hbare]
      rfl
    · exact resolve_of_not_isBare hextension hrelative hbare
  have hroot (hbare : IsBare reference) (h : (fileName? root).isSome) :
      resolve root extension reference = withExtension root extension := by
    rw [resolve_of_isBare hextension hrelative hbare, if_pos h]
  refine ⟨⟨?_, ?_⟩, hbelow, hroot⟩
  · rintro hprefix ⟨hbare, hname⟩
    rw [hroot hbare hname] at hprefix
    exact not_asDirectory_isPrefix hextension hslash hname hprefix
  · intro h
    rw [hbelow h]
    exact List.prefix_append _ _

theorem resolve_stays_below_root_iff_dirThenDot :
    asDirectory "lib.d".toList = "lib.d/".toList ∧
    ¬ IsBare "a/.".toList ∧
    resolve "lib.d".toList "json".toList "a/.".toList = "lib.d/a.json".toList ∧
    asDirectory "lib.d".toList <+: resolve "lib.d".toList "json".toList "a/.".toList := by
  have hbare : ¬ IsBare "a/.".toList := by
    decide
  obtain ⟨hiff, hbelow, -⟩ := resolve_stays_below_root_iff "lib.d".toList "json".toList
    "a/.".toList (by decide) (by decide) (by decide)
  have hnot : ¬ (IsBare "a/.".toList ∧ (fileName? "lib.d".toList).isSome) :=
    fun h => hbare h.1
  exact ⟨by decide, hbare, (hbelow hnot).trans (by decide), hiff.mpr hnot⟩

/-- A reference without a component has the extension put after the name of the root, or in it. -/
theorem bare_reference_extends_root :
    resolve "/abs".toList "J".toList "".toList = "/abs.J".toList ∧
    ¬ asDirectory "/abs".toList <+: resolve "/abs".toList "J".toList "".toList ∧
    resolve "lib.d".toList "json".toList "./".toList = "lib.json".toList ∧
    ¬ asDirectory "lib.d".toList <+: resolve "lib.d".toList "json".toList "./".toList := by
  decide

/--
A reference that ends in a name without an extension stands for the same unit as the reference
with the extension of units behind it, which is the reference below the root with the extension
behind it. A reference with an extension stands for itself.
-/
theorem extension_may_be_left_out (root extension : Chars) (hextension : extension ≠ [])
    (hfits : fitsFileName extension = true) :
    (∀ reference name, EndsIn reference name → extension? reference = none →
      resolve root extension reference = join root reference ++ '.' :: extension ∧
      resolve root extension (reference ++ '.' :: extension) =
        join root reference ++ '.' :: extension) ∧
    ∀ reference, extension? reference ≠ none →
      resolve root extension reference = join root reference := by
  have hslash : '/' ∉ extension := by
    simpa [fitsFileName] using hfits
  refine ⟨?_, fun reference hsome => resolve_of_extension?_ne_none hsome⟩
  intro reference name hends hnone
  have hfile := (hends.join root).fileName?_eq
  have hsuffix : extension? (join root reference) = none := by
    rw [extension?, hfile, ← hnone, extension?, hends.fileName?_eq]
  constructor
  · rw [resolve_of_extension?_eq_none hextension hnone]
    exact (hends.join root).withExtension_eq hsuffix hextension
  · have hsome : extension? (reference ++ '.' :: extension) ≠ none := by
      intro habsent
      have hdot := extension?_eq_none_iff.mp habsent _ (hends.extend hslash).fileName?_eq
      rw [List.tail_append_of_ne_nil hends.ordinary.1] at hdot
      simp at hdot
    rw [resolve_of_extension?_ne_none hsome]
    exact join_append hends.ne_nil ('.' :: extension)

theorem extension_may_be_left_out_hiddenName :
    resolve "/abs".toList "tar.gz".toList "a//.b".toList = "/abs/a//.b.tar.gz".toList ∧
    resolve "/abs".toList "tar.gz".toList "a//.b.tar.gz".toList = "/abs/a//.b.tar.gz".toList ∧
    resolve "/abs".toList "tar.gz".toList "x.".toList = "/abs/x.".toList := by
  obtain ⟨hleftOut, hgiven⟩ := extension_may_be_left_out "/abs".toList "tar.gz".toList
    (by decide) (by decide)
  have hends : EndsIn "a//.b".toList ".b".toList :=
    ⟨⟨"a//".toList, by decide, by simp [IsDirectory]⟩, by decide, by decide⟩
  obtain ⟨hwithout, hwith⟩ := hleftOut "a//.b".toList ".b".toList hends (by decide)
  exact ⟨hwithout.trans (by decide), hwith.trans (by decide),
    (hgiven "x.".toList (by decide)).trans (by decide)⟩

end

end DocScript
