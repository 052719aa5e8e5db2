import JackCompiler.Files.FileSystem
import JackCompiler.Proofs.Paths
/-!
# Making directories

What directories a path needs to be there, and what becomes of a file system when the directories of
a path are made. What was there stays (`Grows`), so once they are made they are found again by every
later call (`makeDirectories_again`). Where they cannot be made, some of them may have been, and a
later call fails again and leaves all as it is; only for a path that goes through one of them and up
again it may then fail with another error (`makeDirectories_refused`).
-/

namespace JackCompiler.FileSystem

variable {files later : FileSystem} {path : Path} {place : Place}

/-! ## Growing file systems -/

/-- What stood at a place stands there later, a file maybe with other bytes. -/
structure Grows (files later : FileSystem) : Prop where
  workingDirectory : later.workingDirectory = files.workingDirectory
  directory : ∀ place, files.node? place = some .directory → later.node? place = some .directory
  file : ∀ place bytes, files.node? place = some (.file bytes) →
    ∃ bytes', later.node? place = some (.file bytes')

theorem Grows.refl (files : FileSystem) : files.Grows files :=
  ⟨rfl, fun _ h => h, fun _ bytes h => ⟨bytes, h⟩⟩

theorem Grows.trans {last : FileSystem} (h : files.Grows later) (h' : later.Grows last) :
    files.Grows last := by
  refine ⟨h'.workingDirectory.trans h.workingDirectory,
    fun place hplace => h'.directory place (h.directory place hplace), fun place bytes hplace => ?_⟩
  obtain ⟨bytes', hbytes'⟩ := h.file place bytes hplace
  exact h'.file place bytes' hbytes'

/-- Directories were made where nothing stood, and nothing else was changed. -/
structure Extends (files later : FileSystem) : Prop where
  workingDirectory : later.workingDirectory = files.workingDirectory
  node : ∀ place, later.node? place = files.node? place ∨
    files.node? place = none ∧ later.node? place = some .directory

theorem Extends.refl (files : FileSystem) : files.Extends files := ⟨rfl, fun _ => .inl rfl⟩

theorem Extends.trans {last : FileSystem} (h : files.Extends later) (h' : later.Extends last) :
    files.Extends last := by
  refine ⟨h'.workingDirectory.trans h.workingDirectory, fun place => ?_⟩
  rcases h.node place with hsame | ⟨hnone, hmade⟩ <;>
    rcases h'.node place with hsame' | ⟨hnone', hmade'⟩
  · exact .inl (hsame'.trans hsame)
  · exact .inr ⟨hsame ▸ hnone', hmade'⟩
  · exact .inr ⟨hnone, hsame'.trans hmade⟩
  · rw [hmade] at hnone'
    cases hnone'

/-- What stood somewhere stands there still. -/
theorem Extends.kept (h : files.Extends later) {node : Node}
    (hnode : files.node? place = some node) : later.node? place = some node := by
  rcases h.node place with hsame | ⟨hnone, -⟩
  · exact hsame.trans hnode
  · rw [hnone] at hnode
    cases hnode

/-- No file was made. -/
theorem Extends.file_kept {bytes : List UInt8} (h : files.Extends later)
    (hfile : later.node? place = some (.file bytes)) : files.node? place = some (.file bytes) := by
  rcases h.node place with hsame | ⟨-, hmade⟩
  · exact hsame.symm.trans hfile
  · rw [hmade] at hfile
    cases hfile

theorem Extends.grows (h : files.Extends later) : files.Grows later :=
  ⟨h.workingDirectory, fun _ hplace => h.kept hplace, fun _ bytes hplace => ⟨bytes, h.kept hplace⟩⟩

theorem extends_insert (h : files.node? place = none) :
    files.Extends (files.insert place .directory) := by
  have hne : place ≠ [] := by
    rintro rfl
    cases h
  refine ⟨rfl, fun other => ?_⟩
  rw [node?_insert files _ other hne]
  split
  · rename_i hother
    exact .inr ⟨hother ▸ h, rfl⟩
  · exact .inl rfl

/-- A file is written where no directory stands. -/
theorem grows_insert_file {bytes : List UInt8} (h : files.node? place ≠ some .directory) :
    files.Grows (files.insert place (.file bytes)) := by
  have hne : place ≠ [] := by
    rintro rfl
    exact h rfl
  refine ⟨rfl, fun other hother => ?_, fun other old hother => ?_⟩
  · rw [node?_insert files _ other hne, if_neg, hother]
    rintro rfl
    exact h hother
  · rw [node?_insert files _ other hne]
    split
    · exact ⟨bytes, rfl⟩
    · exact ⟨old, hother⟩

/-! ## Walks -/

theorem checkDirectory_eq_ok : files.checkDirectory place = .ok () ↔
    files.node? place = some .directory := by
  unfold checkDirectory
  cases files.node? place with
  | none => simp
  | some node => cases node <;> simp

theorem walk_append (start : Place) (before after : List Component) :
    files.walk start (before ++ after) =
      match files.walk start before with
      | .ok place => files.walk place after
      | .error error => .error error := by
  induction before generalizing start with
  | nil => rfl
  | cons component before ih =>
    rw [List.cons_append, walk, walk]
    cases files.checkDirectory start with
    | ok => exact ih _
    | error error => rfl

/-- A walk stops at what is not there or at a file. -/
theorem walk_error {start : Place} {components : List Component} {error : IoError}
    (h : files.walk start components = .error error) :
    error = .notFound ∨ error = .notDirectory := by
  induction components generalizing start with
  | nil => cases h
  | cons component components ih =>
    unfold walk checkDirectory at h
    cases hnode : files.node? start with
    | none =>
      rw [hnode] at h
      cases h
      exact .inl rfl
    | some node =>
      rw [hnode] at h
      cases node with
      | file bytes =>
        cases h
        exact .inr rfl
      | directory => exact ih h

/-- What a walk goes on from is a directory. -/
theorem walk_through {start : Place} {before after : List Component} {component : Component}
    (h : files.walk start (before ++ component :: after) = .ok place) :
    ∃ directory, files.walk start (before ++ [.current]) = .ok directory ∧
      files.walk (enter directory component) after = .ok place := by
  rw [walk_append] at h ⊢
  cases hwalk : files.walk start before with
  | error error =>
    rw [hwalk] at h
    cases h
  | ok directory =>
    rw [hwalk] at h
    dsimp only at h ⊢
    rw [walk] at h ⊢
    cases hcheck : files.checkDirectory directory with
    | error error =>
      rw [hcheck] at h
      cases h
    | ok =>
      rw [hcheck] at h
      exact ⟨directory, rfl, h⟩

theorem Grows.walk_ok (h : files.Grows later) {start : Place} {components : List Component}
    (hwalk : files.walk start components = .ok place) :
    later.walk start components = .ok place := by
  induction components generalizing start with
  | nil => exact hwalk
  | cons component components ih =>
    unfold walk at hwalk ⊢
    cases hcheck : files.checkDirectory start with
    | error error =>
      rw [hcheck] at hwalk
      cases hwalk
    | ok =>
      rw [hcheck] at hwalk
      rw [checkDirectory_eq_ok.mpr (h.directory start (checkDirectory_eq_ok.mp hcheck))]
      exact ih hwalk

theorem Grows.startOf (h : files.Grows later) (path : Path) :
    later.startOf path = files.startOf path := by
  unfold FileSystem.startOf
  rw [h.workingDirectory]

/-- The directory that a path leads to. -/
def directoryOf (files : FileSystem) (path : Path) : Except IoError Place :=
  files.walk (files.startOf path) (path.components ++ [.current])

theorem walk_current {start : Place} {components : List Component} :
    files.walk start (components ++ [.current]) = .ok place ↔
      files.walk start components = .ok place ∧ files.node? place = some .directory := by
  rw [walk_append]
  cases files.walk start components with
  | error error => simp
  | ok reached =>
    dsimp only
    rw [walk, walk, Except.ok.injEq, ← checkDirectory_eq_ok]
    cases hcheck : files.checkDirectory reached with
    | error error =>
      refine iff_of_false (by simp) ?_
      rintro ⟨rfl, h⟩
      rw [hcheck] at h
      cases h
    | ok =>
      simp only [Except.ok.injEq, enter]
      refine ⟨?_, fun h => h.1⟩
      rintro rfl
      exact ⟨rfl, hcheck⟩

theorem directoryOf_eq_ok : files.directoryOf path = .ok place ↔
    files.walk (files.startOf path) path.components = .ok place ∧
      files.node? place = some .directory := walk_current

theorem Grows.directoryOf_ok (h : files.Grows later) (hpath : files.directoryOf path = .ok place) :
    later.directoryOf path = .ok place := by
  unfold directoryOf
  rw [h.startOf]
  exact h.walk_ok hpath

/-- A path names a directory if it leads to one. -/
theorem find_eq_directory : files.find path = .ok (place, .directory) ↔
    path.text ≠ "" ∧ files.directoryOf path = .ok place := by
  unfold find
  by_cases htext : path.text = ""
  · simp [htext]
  rw [if_neg htext, and_iff_right htext]
  dsimp only
  by_cases hseparator : path.endsWithSeparator = true
  · rw [if_pos hseparator]
    change _ ↔ files.walk (files.startOf path) (path.components ++ [.current]) = .ok place
    cases hwalk : files.walk (files.startOf path) (path.components ++ [.current]) with
    | error error => simp
    | ok reached =>
      dsimp only
      rw [(walk_current.mp hwalk).2]
      simp
  · rw [if_neg hseparator, List.append_nil, directoryOf_eq_ok]
    cases files.walk (files.startOf path) path.components with
    | error error => simp
    | ok reached =>
      dsimp only
      cases hnode : files.node? reached with
      | none =>
        refine iff_of_false (by simp) ?_
        rintro ⟨⟨⟩, h⟩
        rw [hnode] at h
        cases h
      | some node =>
        simp only [Except.ok.injEq, Prod.mk.injEq]
        constructor
        · rintro ⟨rfl, rfl⟩
          exact ⟨rfl, hnode⟩
        · rintro ⟨rfl, h⟩
          rw [hnode] at h
          exact ⟨rfl, Option.some.inj h⟩

theorem entryKind_eq_directory : files.entryKind path = .ok .directory ↔
    path.text ≠ "" ∧ ∃ place, files.directoryOf path = .ok place := by
  simp only [← exists_and_left, ← find_eq_directory]
  unfold entryKind
  cases hfind : files.find path with
  | error error => simp
  | ok found =>
    obtain ⟨reached, node⟩ := found
    cases node <;> simp

/-! ## New names -/

/-- The place of a name in a directory. `taken` is the error of what is no name. -/
def newPlace (taken : IoError) (directory : Place) : Component → Except IoError Place
  | .entry name => .ok (directory ++ [name])
  | .current | .parent => .error taken

/-- The last component of a path is looked for in the directory that those before it lead to. -/
theorem findNew_eq {taken : IoError} {before : List Component} {last : Component}
    (htext : path.text ≠ "") (hpath : path.components = before ++ [last]) :
    files.findNew path taken =
      (files.walk (files.startOf path) (before ++ [.current])).bind (newPlace taken · last) := by
  unfold findNew
  rw [if_neg htext, hpath, List.getLast?_concat, List.dropLast_concat, walk_append]
  dsimp only
  cases files.walk (files.startOf path) before with
  | error error => rfl
  | ok directory =>
    dsimp only
    rw [walk]
    cases files.checkDirectory directory with
    | error error => rfl
    | ok => cases last <;> rfl

/-- What comes of looking for the place of a new name. -/
theorem findNew_cases (files : FileSystem) (path : Path) (taken : IoError) :
    (∃ error, files.findNew path taken = .error error ∧
      (error = .notFound ∨ error = .notDirectory ∨ error = taken)) ∨
    ∃ before name directory, files.findNew path taken = .ok (directory ++ [name]) ∧
      path.text ≠ "" ∧ path.components = before ++ [.entry name] ∧
      files.walk (files.startOf path) (before ++ [.current]) = .ok directory := by
  by_cases htext : path.text = ""
  · exact .inl ⟨.notFound, by rw [findNew, if_pos htext], .inl rfl⟩
  rcases List.eq_nil_or_concat path.components with hnil | ⟨before, last, hpath⟩
  · exact .inl ⟨taken, by rw [findNew, if_neg htext, hnil]; rfl, .inr (.inr rfl)⟩
  rw [List.concat_eq_append] at hpath
  rw [findNew_eq htext hpath]
  cases hwalk : files.walk (files.startOf path) (before ++ [.current]) with
  | error error => exact .inl ⟨error, rfl, (walk_error hwalk).imp_right .inl⟩
  | ok directory =>
    cases last with
    | entry name => exact .inr ⟨before, name, directory, rfl, htext, hpath, hwalk⟩
    | current | parent => exact .inl ⟨taken, rfl, .inr (.inr rfl)⟩

theorem findNew_error {taken error : IoError} (h : files.findNew path taken = .error error) :
    error = .notFound ∨ error = .notDirectory ∨ error = taken := by
  rcases files.findNew_cases path taken with ⟨reason, hreason, hcases⟩ | ⟨_, _, _, hplace, -⟩
  · rw [hreason] at h
    cases h
    exact hcases
  · rw [hplace] at h
    cases h

theorem findNew_ok {taken : IoError} (h : files.findNew path taken = .ok place) :
    ∃ before name directory, path.text ≠ "" ∧ path.components = before ++ [.entry name] ∧
      files.walk (files.startOf path) (before ++ [.current]) = .ok directory ∧
      place = directory ++ [name] := by
  rcases files.findNew_cases path taken with
    ⟨reason, hreason, -⟩ | ⟨before, name, directory, hplace, htext, hpath, hwalk⟩
  · rw [hreason] at h
    cases h
  · rw [hplace] at h
    cases h
    exact ⟨before, name, directory, htext, hpath, hwalk, rfl⟩

theorem findNew_child {directory : Path} {name : EntryName} {taken : IoError} :
    files.findNew (directory.child name.text) taken =
      (files.directoryOf directory).map (· ++ [name]) := by
  have hstart : files.startOf (directory.child name.text) = files.startOf directory := by
    unfold startOf
    rw [Path.isAbsolute_child directory name.valid.2.1]
  rw [findNew_eq (directory.child_text_ne name.valid.1) (directory.components_child name), hstart,
    directoryOf]
  cases files.walk (files.startOf directory) (directory.components ++ [.current]) <;> rfl

theorem find_child {directory : Path} {name : EntryName}
    (h : files.directoryOf directory = .ok place) :
    files.find (directory.child name.text) =
      match files.node? (place ++ [name]) with
      | some node => .ok (place ++ [name], node)
      | none => .error .notFound := by
  obtain ⟨hwalk, hnode⟩ := directoryOf_eq_ok.mp h
  have hstart : files.startOf (directory.child name.text) = files.startOf directory := by
    unfold startOf
    rw [Path.isAbsolute_child directory name.valid.2.1]
  unfold find
  rw [if_neg (directory.child_text_ne name.valid.1), directory.components_child,
    directory.endsWithSeparator_child name.valid.1 name.valid.2.1, hstart]
  dsimp only
  rw [if_neg Bool.false_ne_true, List.append_nil, walk_append, hwalk]
  dsimp only
  rw [walk, checkDirectory_eq_ok.mpr hnode]
  rfl

/-! ## Making one directory -/

/-- A directory is made where nothing stood. -/
theorem makeDirectory_ok (h : files.makeDirectory path = .ok later) :
    ∃ place, files.node? place = none ∧ later = files.insert place .directory ∧
      files.findNew path .fileExists = .ok place := by
  unfold makeDirectory at h
  cases hfind : files.findNew path .fileExists with
  | error error =>
    rw [hfind] at h
    cases h
  | ok place =>
    rw [hfind] at h
    dsimp only at h
    cases hnode : files.node? place with
    | some node =>
      rw [hnode] at h
      cases h
    | none =>
      rw [hnode] at h
      cases h
      exact ⟨place, hnode, rfl, rfl⟩

theorem makeDirectory_extends (h : files.makeDirectory path = .ok later) : files.Extends later := by
  obtain ⟨place, hnode, rfl, -⟩ := makeDirectory_ok h
  exact extends_insert hnode

/-- A directory that was made is found. -/
theorem makeDirectory_found (h : files.makeDirectory path = .ok later) :
    ∃ place, later.directoryOf path = .ok place := by
  have hgrows := (makeDirectory_extends h).grows
  obtain ⟨place, hnode, rfl, hfind⟩ := makeDirectory_ok h
  obtain ⟨before, name, directory, -, hpath, hwalk, rfl⟩ := findNew_ok hfind
  obtain ⟨hwalk, hdirectory⟩ := walk_current.mp hwalk
  refine ⟨directory ++ [name], directoryOf_eq_ok.mpr ⟨?_, ?_⟩⟩
  · rw [hgrows.startOf, hpath, walk_append, hgrows.walk_ok hwalk]
    dsimp only
    rw [walk, checkDirectory_eq_ok.mpr (hgrows.directory _ hdirectory)]
    rfl
  · rw [node?_insert files _ _ (by simp), if_pos rfl]

/-- A directory that is there is not made again. -/
theorem makeDirectory_exists (htext : path.text ≠ "") (h : files.directoryOf path = .ok place) :
    files.makeDirectory path = .error .fileExists := by
  obtain ⟨hwalk, hnode⟩ := directoryOf_eq_ok.mp h
  unfold makeDirectory
  rcases List.eq_nil_or_concat path.components with hnil | ⟨before, last, hpath⟩
  · rw [findNew, if_neg htext, hnil]
    rfl
  · rw [List.concat_eq_append] at hpath
    rw [hpath] at hwalk
    obtain ⟨directory, hdirectory, hlast⟩ := walk_through hwalk
    rw [findNew_eq htext hpath, hdirectory]
    cases last with
    | entry name =>
      cases hlast
      simp only [enter, Except.bind, newPlace] at hnode ⊢
      rw [hnode]
    | current | parent => rfl

/-! ## Parents -/

theorem startOf_parent {parent : Path} (h : path.parent? = some parent) :
    files.startOf parent = files.startOf path := by
  unfold startOf
  rw [Path.parent?_isAbsolute h]

theorem text_ne_of_parent {parent : Path} (h : path.parent? = some parent) : path.text ≠ "" := by
  intro htext
  have hlength := Path.parent?_length_lt h
  rw [htext] at hlength
  exact absurd hlength (Nat.not_lt_zero _)

/-- The last component of a path comes after those of its parent. -/
theorem components_parent {parent : Path} (h : path.parent? = some parent) :
    ∃ between last, path.components = parent.components ++ between ++ [last] := by
  obtain ⟨dots, last, more, hpath, -⟩ := Path.parent?_components h
  rcases List.eq_nil_or_concat (List.replicate more Component.current) with hmore | ⟨init, l, hmore⟩
  · exact ⟨List.replicate dots .current, last, by rw [hpath, hmore]⟩
  · refine ⟨List.replicate dots .current ++ last :: init, l, ?_⟩
    rw [hpath, hmore, List.concat_eq_append]
    simp only [List.append_assoc, List.cons_append]

/-- A path that leads to a directory goes through its parent. -/
theorem directoryOf_parent {parent : Path} (h : path.parent? = some parent)
    (hpath : files.directoryOf path = .ok place) :
    ∃ directory, files.directoryOf parent = .ok directory := by
  obtain ⟨between, last, hcomponents⟩ := components_parent h
  rw [directoryOf, hcomponents, List.append_assoc, List.append_assoc] at hpath
  obtain ⟨component, after, hafter⟩ := List.exists_cons_of_ne_nil
    (show between ++ ([last] ++ [Component.current]) ≠ [] by simp)
  rw [hafter] at hpath
  rw [directoryOf, startOf_parent h]
  obtain ⟨directory, hdirectory, -⟩ := walk_through hpath
  exact ⟨directory, hdirectory⟩

/-- No directory is made where the parent leads to none. -/
theorem makeDirectory_blocked {parent : Path} (h : path.parent? = some parent)
    (hparent : ∀ directory, files.directoryOf parent ≠ .ok directory) :
    files.makeDirectory path = .error .notFound ∨
      files.makeDirectory path = .error .notDirectory := by
  obtain ⟨between, last, hcomponents⟩ := components_parent h
  unfold makeDirectory
  rw [findNew_eq (text_ne_of_parent h) hcomponents]
  cases hwalk : files.walk (files.startOf path)
      (parent.components ++ between ++ [Component.current]) with
  | error error =>
    rcases walk_error hwalk with rfl | rfl
    · exact .inl rfl
    · exact .inr rfl
  | ok directory =>
    rw [List.append_assoc] at hwalk
    obtain ⟨component, after, hafter⟩ := List.exists_cons_of_ne_nil
      (show between ++ [Component.current] ≠ [] by simp)
    rw [hafter] at hwalk
    obtain ⟨directory, hdirectory, -⟩ := walk_through hwalk
    rw [← startOf_parent h] at hdirectory
    exact absurd hdirectory (hparent directory)

theorem walk_dots {k : Nat} (h : files.node? place = some .directory) :
    files.walk place (List.replicate k .current ++ [.current]) = .ok place := by
  rw [← List.replicate_succ']
  induction k + 1 with
  | zero => rfl
  | succ k ih =>
    rw [List.replicate_succ, walk, checkDirectory_eq_ok.mpr h]
    exact ih

/-- What a trimmed path needs is its parent. -/
theorem makeDirectory_ne_notFound {parent directory : _} (h : path.parent? = some parent)
    (htrimmed : path.Trimmed) (hparent : files.directoryOf parent = .ok directory) :
    files.makeDirectory path ≠ .error .notFound := by
  obtain ⟨dots, last, more, hcomponents, hmore⟩ := Path.parent?_components h
  rw [hmore htrimmed, List.replicate_zero] at hcomponents
  obtain ⟨hwalk, hnode⟩ := directoryOf_eq_ok.mp hparent
  have hbefore : files.walk (files.startOf path)
      (parent.components ++ List.replicate dots .current ++ [.current]) = .ok directory := by
    rw [List.append_assoc, walk_append, ← startOf_parent h, hwalk]
    exact walk_dots hnode
  unfold makeDirectory
  rw [findNew_eq (text_ne_of_parent h) hcomponents, hbefore]
  cases last with
  | entry name =>
    simp only [Except.bind, newPlace]
    cases files.node? (directory ++ [name]) <;> simp
  | current | parent => simp [Except.bind, newPlace]

/-! ## Making the directories of a path -/

/-- Makes a directory. One that exists already is no error. -/
def makeLast (files : FileSystem) (path : Path) : Except IoError Unit × FileSystem :=
  match files.makeDirectory path with
  | .ok files => (.ok (), files)
  | .error error =>
    (if files.entryKind path = .ok .directory then .ok () else .error error, files)

/-- Makes a directory and those above it that are missing. -/
def makeDirectories (files : FileSystem) (path : Path) : Except IoError Unit × FileSystem :=
  if path.text = "" then (.ok (), files)
  else if files.makeDirectory path = .error .notFound then
    match _h : path.parent? with
    | none => files.makeLast path
    | some parent =>
      match files.makeDirectories parent with
      | (.error error, files) => (.error error, files)
      | (.ok (), files) => files.makeLast path
  else files.makeLast path
termination_by path.text.length
decreasing_by exact Path.parent?_length_lt (by assumption)

theorem makeDirectories_empty (htext : path.text = "") :
    files.makeDirectories path = (.ok (), files) := by
  rw [makeDirectories, if_pos htext]

theorem makeDirectories_last (htext : path.text ≠ "")
    (h : files.makeDirectory path ≠ .error .notFound ∨ path.parent? = none) :
    files.makeDirectories path = files.makeLast path := by
  rw [makeDirectories, if_neg htext]
  split
  · rename_i hmissing
    split
    · rfl
    · rename_i parent hparent
      rcases h with h | h
      · exact absurd hmissing h
      · rw [h] at hparent
        cases hparent
  · rfl

theorem makeDirectories_parent {parent : Path} (hparent : path.parent? = some parent)
    (h : files.makeDirectory path = .error .notFound) :
    files.makeDirectories path =
      match files.makeDirectories parent with
      | (.error error, files) => (.error error, files)
      | (.ok (), files) => files.makeLast path := by
  rw [makeDirectories, if_neg (text_ne_of_parent hparent), if_pos h]
  split
  · rename_i hnone
    rw [hparent] at hnone
    cases hnone
  · rename_i other hother
    rw [hparent] at hother
    cases hother
    rfl

/-- What holds of making a directory if the path is empty, if its last directory is made or refused
right away, if those above it cannot be made, and if they can. -/
theorem makeDirectories_induction
    {motive : FileSystem → Path → Except IoError Unit × FileSystem → Prop}
    (empty : ∀ files path, path.text = "" → motive files path (.ok (), files))
    (last : ∀ files path, path.text ≠ "" →
      (files.makeDirectory path ≠ .error .notFound ∨ path.parent? = none) →
      motive files path (files.makeLast path))
    (blocked : ∀ files path parent error after, path.parent? = some parent →
      files.makeDirectory path = .error .notFound →
      files.makeDirectories parent = (.error error, after) →
      motive files parent (.error error, after) → motive files path (.error error, after))
    (above : ∀ files path parent after, path.parent? = some parent →
      files.makeDirectory path = .error .notFound →
      files.makeDirectories parent = (.ok (), after) →
      motive files parent (.ok (), after) → motive files path (after.makeLast path))
    (files : FileSystem) (path : Path) : motive files path (files.makeDirectories path) := by
  -- on the length of the path: a parent is shorter
  induction h : path.text.length using Nat.strong_induction_on generalizing path with
  | _ n ih =>
    subst h
    by_cases htext : path.text = ""
    · rw [makeDirectories_empty htext]
      exact empty files path htext
    by_cases hmissing : files.makeDirectory path = .error .notFound
    · cases hparent : path.parent? with
      | none =>
        rw [makeDirectories_last htext (.inr hparent)]
        exact last files path htext (.inr hparent)
      | some parent =>
        have hmotive := ih _ (Path.parent?_length_lt hparent) parent rfl
        rw [makeDirectories_parent hparent hmissing]
        rcases hresult : files.makeDirectories parent with ⟨_ | _, after⟩
        · rw [hresult] at hmotive
          exact blocked files path parent _ after hparent hmissing hresult hmotive
        · rw [hresult] at hmotive
          exact above files path parent after hparent hmissing hresult hmotive
    · rw [makeDirectories_last htext (.inl hmissing)]
      exact last files path htext (.inl hmissing)

/-! ## What making directories leaves -/

theorem makeLast_ok (h : files.makeLast path = (.ok (), later)) :
    files.Extends later ∧ ∃ place, later.directoryOf path = .ok place := by
  unfold makeLast at h
  cases hmake : files.makeDirectory path with
  | ok made =>
    rw [hmake] at h
    cases h
    exact ⟨makeDirectory_extends hmake, makeDirectory_found hmake⟩
  | error error =>
    rw [hmake] at h
    dsimp only at h
    split at h
    · rename_i hkind
      cases h
      exact ⟨.refl _, (entryKind_eq_directory.mp hkind).2⟩
    · cases h

theorem makeLast_error {error : IoError} (h : files.makeLast path = (.error error, later)) :
    later = files ∧ files.makeDirectory path = .error error ∧
      files.entryKind path ≠ .ok .directory := by
  unfold makeLast at h
  cases hmake : files.makeDirectory path with
  | ok made =>
    rw [hmake] at h
    cases h
  | error reason =>
    rw [hmake] at h
    dsimp only at h
    split at h
    · cases h
    · rename_i hkind
      cases h
      exact ⟨rfl, rfl, hkind⟩

theorem makeLast_of_error {error : IoError} (hmake : files.makeDirectory path = .error error)
    (hkind : files.entryKind path ≠ .ok .directory) :
    files.makeLast path = (.error error, files) := by
  unfold makeLast
  rw [hmake]
  dsimp only
  rw [if_neg hkind]

theorem makeDirectories_extends (files : FileSystem) (path : Path) :
    files.Extends (files.makeDirectories path).2 := by
  have hlast : ∀ (files : FileSystem) (path : Path), files.Extends (files.makeLast path).2 := by
    intro files path
    rcases hresult : files.makeLast path with ⟨_ | _, later⟩
    · rw [(makeLast_error hresult).1]
      exact .refl _
    · exact (makeLast_ok hresult).1
  refine makeDirectories_induction (motive := fun files _ result => files.Extends result.2)
    ?empty ?last ?blocked ?above files path
  case empty =>
    intro files path _
    exact .refl files
  case last =>
    intro files path _ _
    exact hlast files path
  case blocked =>
    intro files path parent error after _ _ _ ih
    exact ih
  case above =>
    intro files path parent after _ _ _ ih
    exact ih.trans (hlast after path)

/-- Directories that were made are found. -/
theorem makeDirectories_found (htext : path.text ≠ "")
    (h : files.makeDirectories path = (.ok (), later)) :
    ∃ place, later.directoryOf path = .ok place := by
  revert htext h
  refine makeDirectories_induction (motive := fun _ path result => path.text ≠ "" →
      result = (.ok (), later) → ∃ place, later.directoryOf path = .ok place)
    ?empty ?last ?blocked ?above files path
  case empty =>
    intro files path hempty htext
    exact absurd hempty htext
  case last =>
    intro files path _ _ _ h
    exact (makeLast_ok h).2
  case blocked =>
    intro files path parent error after _ _ _ _ _ h
    cases h
  case above =>
    intro files path parent after _ _ _ _ _ h
    exact (makeLast_ok h).2

/-- Directories that were made are not made again, whatever was added since. -/
theorem makeDirectories_again {last : FileSystem} (h : files.makeDirectories path = (.ok (), later))
    (hlast : later.Grows last) : last.makeDirectories path = (.ok (), last) := by
  by_cases htext : path.text = ""
  · exact makeDirectories_empty htext
  obtain ⟨place, hplace⟩ := makeDirectories_found htext h
  have hfound := hlast.directoryOf_ok hplace
  have hmake := makeDirectory_exists htext hfound
  have hkind : last.entryKind path = .ok .directory :=
    entryKind_eq_directory.mpr ⟨htext, place, hfound⟩
  rw [makeDirectories_last htext (.inl (by rw [hmake]; simp)), makeLast, hmake]
  dsimp only
  rw [if_pos hkind]

/-- Where directories could not be made there is none. -/
theorem makeDirectories_not_found {error : IoError}
    (h : files.makeDirectories path = (.error error, later)) :
    path.text ≠ "" ∧ ∀ place, later.directoryOf path ≠ .ok place := by
  have hlast {files : FileSystem} {path : Path} (htext : path.text ≠ "")
      (h : files.makeLast path = (.error error, later)) (place : Place) :
      later.directoryOf path ≠ .ok place := by
    obtain ⟨rfl, -, hkind⟩ := makeLast_error h
    exact fun hfound => hkind (entryKind_eq_directory.mpr ⟨htext, place, hfound⟩)
  revert h
  refine makeDirectories_induction (motive := fun _ path result => result = (.error error, later) →
      path.text ≠ "" ∧ ∀ place, later.directoryOf path ≠ .ok place)
    ?empty ?last ?blocked ?above files path
  case empty =>
    intro files path _ h
    cases h
  case last =>
    intro files path htext _ h
    exact ⟨htext, hlast htext h⟩
  case blocked =>
    intro files path parent reason after hparent _ _ ih h
    refine ⟨text_ne_of_parent hparent, fun place hfound => ?_⟩
    obtain ⟨directory, hdirectory⟩ := directoryOf_parent hparent hfound
    exact (ih h).2 directory hdirectory
  case above =>
    intro files path parent after hparent _ _ _ h
    exact ⟨text_ne_of_parent hparent, hlast (text_ne_of_parent hparent) h⟩

theorem makeDirectory_error {error : IoError} (h : files.makeDirectory path = .error error) :
    error = .notFound ∨ error = .notDirectory ∨ error = .fileExists := by
  unfold makeDirectory at h
  cases hplace : files.findNew path .fileExists with
  | error reason =>
    rw [hplace] at h
    cases h
    exact findNew_error hplace
  | ok place =>
    rw [hplace] at h
    dsimp only at h
    cases hnode : files.node? place with
    | some node =>
      rw [hnode] at h
      cases h
      exact .inr (.inr rfl)
    | none =>
      rw [hnode] at h
      cases h

theorem makeDirectories_error {error : IoError}
    (h : files.makeDirectories path = (.error error, later)) :
    error = .notFound ∨ error = .notDirectory ∨ error = .fileExists := by
  revert h
  refine makeDirectories_induction (motive := fun _ _ result => result = (.error error, later) →
      error = .notFound ∨ error = .notDirectory ∨ error = .fileExists)
    ?empty ?last ?blocked ?above files path
  case empty =>
    intro files path _ h
    cases h
  case last =>
    intro files path _ _ h
    exact makeDirectory_error (makeLast_error h).2.1
  case blocked =>
    intro files path parent reason after _ _ _ ih h
    exact ih h
  case above =>
    intro files path parent after _ _ _ _ h
    exact makeDirectory_error (makeLast_error h).2.1

/-- For a trimmed path, nothing is missing once those above it are made, so nothing was made where
something is. -/
theorem makeDirectories_notFound (htrimmed : path.Trimmed ∨ path.parent? = none)
    (h : files.makeDirectories path = (.error .notFound, later)) : later = files := by
  revert htrimmed h
  refine makeDirectories_induction (motive := fun files path result =>
      path.Trimmed ∨ path.parent? = none → result = (.error .notFound, later) → later = files)
    ?empty ?last ?blocked ?above files path
  case empty =>
    intro files path _ _ h
    cases h
  case last =>
    intro files path _ _ _ h
    exact (makeLast_error h).1
  case blocked =>
    intro files path parent reason after hparent _ _ ih _ h
    exact ih (Path.parent?_settled hparent) h
  case above =>
    intro files path parent after hparent _ hmade _ htrimmed h
    obtain ⟨rfl, hmissing, -⟩ := makeLast_error h
    have htrimmed : path.Trimmed := by
      rcases htrimmed with htrimmed | hnone
      · exact htrimmed
      · rw [hparent] at hnone
        cases hnone
    by_cases htext : parent.text = ""
    · rw [makeDirectories_empty htext] at hmade
      exact (congrArg Prod.snd hmade).symm
    · obtain ⟨directory, hdirectory⟩ := makeDirectories_found htext hmade
      exact absurd hmissing (makeDirectory_ne_notFound hparent htrimmed hdirectory)

/-- Where a file stands before the end of a path, no directory is made. -/
theorem makeDirectories_notDirectory {parent : Path} (hparent : path.parent? = some parent)
    (hnone : ∀ directory, files.directoryOf parent ≠ .ok directory)
    (h : files.makeDirectory path = .error .notDirectory) :
    files.makeDirectories path = (.error .notDirectory, files) := by
  have hkind : files.entryKind path ≠ .ok .directory := by
    intro hkind
    obtain ⟨-, place, hplace⟩ := entryKind_eq_directory.mp hkind
    obtain ⟨directory, hdirectory⟩ := directoryOf_parent hparent hplace
    exact hnone directory hdirectory
  rw [makeDirectories_last (text_ne_of_parent hparent) (.inl (by rw [h]; simp)),
    makeLast_of_error h hkind]

/-- Where directories could not be made, another call fails as well and changes nothing. It may fail
with another error, as some of the directories may be there now: where there was a file in the way
of a directory, there can now be one in the way of the path. -/
theorem makeDirectories_refused {error : IoError}
    (h : files.makeDirectories path = (.error error, later)) :
    ∃ error', later.makeDirectories path = (.error error', later) ∧
      (error' = error ∨ error = .fileExists ∧ error' = .notDirectory) := by
  revert h
  refine makeDirectories_induction (motive := fun files path result =>
      result = (.error error, later) →
        ∃ error', later.makeDirectories path = (.error error', later) ∧
          (error' = error ∨ error = .fileExists ∧ error' = .notDirectory))
    ?empty ?last ?blocked ?above files path
  case empty =>
    intro files path _ h
    cases h
  case last =>
    intro files path htext hlast h
    obtain ⟨rfl, -, -⟩ := makeLast_error h
    exact ⟨error, (makeDirectories_last htext hlast).trans h, .inl rfl⟩
  case blocked =>
    intro files path parent reason after hparent hmissing hblocked ih h
    cases h
    obtain ⟨error', herror', hsame⟩ := ih rfl
    have hnone := (makeDirectories_not_found hblocked).2
    rcases makeDirectory_blocked hparent hnone with hagain | hagain
    · refine ⟨error', ?_, hsame⟩
      rw [makeDirectories_parent hparent hagain, herror']
    · refine ⟨.notDirectory, makeDirectories_notDirectory hparent hnone hagain, ?_⟩
      rcases makeDirectories_error hblocked with rfl | rfl | rfl
      · -- nothing was made, so nothing has come in the way
        rw [makeDirectories_notFound (Path.parent?_settled hparent) hblocked, hmissing] at hagain
        cases hagain
      · exact .inl rfl
      · exact .inr ⟨rfl, rfl⟩
  case above =>
    intro files path parent after hparent hmissing hmade _ h
    obtain ⟨rfl, hlast, -⟩ := makeLast_error h
    refine ⟨error, ?_, .inl rfl⟩
    by_cases hagain : error = .notFound
    · subst hagain
      rw [makeDirectories_parent hparent hlast, makeDirectories_again hmade (.refl _)]
      exact h
    · rw [makeDirectories_last (text_ne_of_parent hparent) (.inl ?_), h]
      rw [hlast]
      simpa using hagain

end JackCompiler.FileSystem
