import JackCompiler.Proofs.Builds
/-!
# Where files are written

A file that is written is found again at the path it was written to (`writeFile_ok`), at a place that
ends with the file name of that path (`find_file`). The token document of a source has another file
name than the source (`Path.splitName_document`), so it is never the same file.
-/

namespace JackCompiler

namespace FileSystem

variable {files later : FileSystem} {path : Path} {place : Place} {bytes : List UInt8}

/-- The same files stand at the same places, with the same bytes. -/
def SameFiles (files later : FileSystem) : Prop :=
  ∀ place bytes, later.node? place = some (.file bytes) ↔ files.node? place = some (.file bytes)

theorem Extends.sameFiles (h : files.Extends later) : files.SameFiles later :=
  fun _ _ => ⟨h.file_kept, h.kept⟩

theorem find_eq_ok {node : Node} : files.find path = .ok (place, node) ↔ path.text ≠ "" ∧
    files.walk (files.startOf path)
      (path.components ++ if path.endsWithSeparator then [.current] else []) = .ok place ∧
    files.node? place = some node := by
  unfold find
  by_cases htext : path.text = ""
  · simp [htext]
  rw [if_neg htext, and_iff_right htext]
  dsimp only
  cases files.walk (files.startOf path)
      (path.components ++ if path.endsWithSeparator then [.current] else []) with
  | error error => simp
  | ok reached =>
    dsimp only
    cases hnode : files.node? reached with
    | none =>
      refine iff_of_false (by simp) ?_
      rintro ⟨⟨⟩, h⟩
      rw [hnode] at h
      cases h
    | some found =>
      simp only [Except.ok.injEq, Prod.mk.injEq]
      constructor
      · rintro ⟨rfl, rfl⟩
        exact ⟨rfl, hnode⟩
      · rintro ⟨rfl, h⟩
        rw [hnode] at h
        exact ⟨rfl, Option.some.inj h⟩

/-- A name is looked for in a directory. -/
theorem walk_entry {start : Place} {components : List Component} {name : EntryName} :
    files.walk start (components ++ [.entry name]) = .ok place ↔
      ∃ directory, files.walk start (components ++ [.current]) = .ok directory ∧
        place = directory ++ [name] := by
  rw [walk_append, walk_append]
  cases files.walk start components with
  | error error => simp
  | ok reached =>
    simp only [walk]
    cases files.checkDirectory reached with
    | error error => simp
    | ok => simp [enter, eq_comm]

/-- A file that was written is found at the path that it was written to. -/
theorem writeFile_ok (h : files.writeFile path bytes = .ok later) :
    ∃ place, files.node? place ≠ some .directory ∧ later = files.insert place (.file bytes) ∧
      later.find path = .ok (place, .file bytes) := by
  unfold writeFile at h
  cases hnew : files.findNew path .isDirectory with
  | error error =>
    rw [hnew] at h
    cases h
  | ok place =>
    rw [hnew] at h
    dsimp only at h
    split at h
    · cases h
    rename_i hseparator
    split at h
    · cases h
    rename_i hnode
    cases h
    have hgrows : files.Grows (files.insert place (.file bytes)) := grows_insert_file hnode
    obtain ⟨before, name, directory, htext, hpath, hwalk, rfl⟩ := findNew_ok hnew
    refine ⟨directory ++ [name], hnode, rfl, find_eq_ok.mpr ⟨htext, ?_, ?_⟩⟩
    · rw [if_neg hseparator, List.append_nil, hgrows.startOf, hpath]
      exact walk_entry.mpr ⟨directory, hgrows.walk_ok hwalk, rfl⟩
    · rw [node?_insert files _ _ (by simp), if_pos rfl]

/-- What is read is what a file holds. -/
theorem textOf_ok {text : String} (h : files.textOf path = .ok text) :
    ∃ place bytes, files.find path = .ok (place, .file bytes) := by
  unfold textOf readFile at h
  cases hfind : files.find path with
  | error error =>
    rw [hfind] at h
    cases h
  | ok found =>
    obtain ⟨place, node⟩ := found
    cases node with
    | file bytes => exact ⟨place, bytes, rfl⟩
    | directory =>
      rw [hfind] at h
      cases h

/-- A file stands at a place that ends with its name. -/
theorem find_file {name : String} (h : files.find path = .ok (place, .file bytes))
    (hname : path.fileName? = some name) :
    ∃ directory entry, entry.text = name ∧ place = directory ++ [entry] := by
  obtain ⟨-, hwalk, hnode⟩ := find_eq_ok.mp h
  obtain ⟨entry, before, more, hentry, hcomponents⟩ := Path.components_fileName hname
  obtain ⟨k, hk⟩ : ∃ k, path.components ++ (if path.endsWithSeparator then [.current] else []) =
      before ++ [.entry entry] ++ List.replicate k .current := by
    rw [hcomponents]
    split
    · exact ⟨more + 1, by rw [List.replicate_succ']; simp⟩
    · exact ⟨more, by simp⟩
  rw [hk] at hwalk
  cases k with
  | zero =>
    rw [List.replicate_zero, List.append_nil] at hwalk
    obtain ⟨directory, -, rfl⟩ := walk_entry.mp hwalk
    exact ⟨directory, entry, hentry, rfl⟩
  | succ k =>
    rw [List.replicate_succ', ← List.append_assoc] at hwalk
    rw [(walk_current.mp hwalk).2] at hnode
    cases hnode

end FileSystem

/-! ## Token documents -/

/-- Where the token document of a source goes. Without a stem there is none. -/
def Path.document (path : Path) : Path := path.withFileName (path.fileStem?.getD "" ++ "T.xml")

namespace Path

theorem splitName_cases (name : String) :
    name = (splitName name).1 ∨ ∃ extension, name = (splitName name).1 ++ "." ++ extension := by
  cases hsplit : splitName name with
  | mk stem extension =>
    cases extension with
    | some extension => exact .inr ⟨extension, (splitName_eq hsplit).1⟩
    | none =>
      left
      unfold splitName at hsplit
      dsimp only at hsplit
      split at hsplit
      · cases hsplit
        rfl
      · cases hsplit

/-- The document of a file has another name. -/
theorem splitName_document (name : String) : (splitName name).1 ++ "T.xml" ≠ name := by
  intro h
  generalize hstem : (splitName name).1 = stem at h
  rcases splitName_cases name with hname | ⟨extension, hname⟩
  · rw [hstem] at hname
    rw [hname] at h
    simpa using congrArg String.toList h
  · rw [hstem] at hname
    have htail := congrArg String.toList (h.trans hname)
    simp at htail

/-- The name of a document is one of an entry. -/
theorem isEntryName_document (name : EntryName) :
    IsEntryName ((splitName name.text).1 ++ "T.xml") := by
  have hslash : '/' ∉ (splitName name.text).1.toList := by
    intro hmem
    apply name.valid.2.1
    rcases splitName_cases name.text with hname | ⟨extension, hname⟩
    · rwa [hname]
    · rw [hname]
      simp [hmem]
  have hlast {text : String} (h : (splitName name.text).1 ++ "T.xml" = text) :
      text.toList.getLast? = some 'l' := by
    rw [← h]
    simp
  refine ⟨fun h => ?_, by simpa using hslash, fun h => ?_, fun h => ?_⟩
  all_goals
    have hlast := hlast h
    simp at hlast

theorem fileName?_document {path : Path} {name : String} (h : path.fileName? = some name) :
    path.document.fileName? = some ((splitName name).1 ++ "T.xml") := by
  obtain ⟨entry, -, -, rfl, -⟩ := components_fileName h
  obtain ⟨directory, hdirectory⟩ : ∃ directory : Path,
      path.document = directory.child ((splitName entry.text).1 ++ "T.xml") := by
    unfold document withFileName fileStem?
    rw [h]
    cases path.parent? with
    | none => exact ⟨path, rfl⟩
    | some parent => exact ⟨parent, rfl⟩
  rw [hdirectory]
  exact fileName?_child directory ⟨_, isEntryName_document entry⟩

end Path

end JackCompiler
