import JackCompiler.Proofs.Builds
/-!
# The sources of a directory and their outputs

The source files of a directory are its regular files with the extension of sources, each once and
in the order of their names (`sourcesOf_directory`). The outputs of two of them have different names
(`outputEntry?_injective`), and none of them has the name of a source (`outputEntry?_not_source`).
What comes of writing an output is said by the directory that it goes to (`writeCode_eq`).
-/

namespace JackCompiler

/-! ## Names of sources and outputs -/

/-- A name with the extension of source files. -/
def EntryName.IsSource (name : EntryName) : Prop := (Path.splitName name.text).2 = some "jack"

/-- The name of the output of a source file. A file whose stem is a dot has none. -/
def EntryName.outputEntry? (name : EntryName) : Option EntryName :=
  let stem := (Path.splitName name.text).1
  if stem = "." then none
  else if h : IsEntryName (stem ++ ".vm") then some ⟨stem ++ ".vm", h⟩
  else none

namespace EntryName

variable {name other output : EntryName}

/-- A source file has a stem. -/
theorem IsSource.text_eq (h : name.IsSource) :
    name.text = (Path.splitName name.text).1 ++ ".jack" ∧ (Path.splitName name.text).1 ≠ "" := by
  have hsplit : Path.splitName name.text = ((Path.splitName name.text).1, some "jack") :=
    Prod.ext rfl h
  obtain ⟨htext, hstem⟩ := Path.splitName_eq hsplit
  refine ⟨?_, hstem⟩
  rwa [String.append_assoc] at htext

theorem outputEntry?_text (h : name.outputEntry? = some output) :
    output.text = (Path.splitName name.text).1 ++ ".vm" := by
  unfold outputEntry? at h
  dsimp only at h
  split at h
  · cases h
  · split at h
    · cases h
      rfl
    · cases h

/-- A source file has an output, unless its stem is a dot. -/
theorem IsSource.outputEntry?_eq (h : name.IsSource) :
    ((Path.splitName name.text).1 = "." ∧ name.outputEntry? = none) ∨
      ((Path.splitName name.text).1 ≠ "." ∧ ∃ output, name.outputEntry? = some output) := by
  obtain ⟨htext, hstem⟩ := h.text_eq
  unfold outputEntry?
  dsimp only
  by_cases hdot : (Path.splitName name.text).1 = "."
  · exact .inl ⟨hdot, if_pos hdot⟩
  · refine .inr ⟨hdot, ?_⟩
    have hslash : '/' ∉ (Path.splitName name.text).1.toList := by
      have hname := name.valid.2.1
      rw [htext, String.toList_append] at hname
      exact fun hmem => hname (List.mem_append_left _ hmem)
    have hlength : 0 < (Path.splitName name.text).1.length :=
      Nat.pos_of_ne_zero fun hzero => hstem (String.length_eq_zero_iff.mp hzero)
    have hvalid : IsEntryName ((Path.splitName name.text).1 ++ ".vm") := by
      have hshort {text : String} (htext : text.length < 3) :
          (Path.splitName name.text).1 ++ ".vm" ≠ text := by
        intro h
        have hsuffix : ".vm".length = 3 := by decide
        rw [← h, String.length_append, hsuffix] at htext
        omega
      refine ⟨hshort (by decide), ?_, hshort (by decide), hshort (by decide)⟩
      rw [String.toList_append, List.mem_append, not_or]
      exact ⟨hslash, by decide⟩
    rw [if_neg hdot, dif_pos hvalid]
    exact ⟨_, rfl⟩

theorem text_injective (h : name.text = other.text) : name = other := by
  cases name
  cases other
  cases h
  rfl

theorem child_injective {directory : Path}
    (h : directory.child name.text = directory.child other.text) : name = other := by
  have htexts := congrArg (fun path => path.text.toList) h
  simp only [Path.child_toList] at htexts
  exact text_injective (String.toList_inj.mp (List.append_cancel_left htexts))

/-- Two sources have two outputs. -/
theorem outputEntry?_injective (hname : name.IsSource) (hother : other.IsSource)
    (h : name.outputEntry? = some output) (h' : other.outputEntry? = some output) :
    name = other := by
  have htexts := (outputEntry?_text h).symm.trans (outputEntry?_text h')
  have hstem : (Path.splitName name.text).1 = (Path.splitName other.text).1 := by
    simpa using htexts
  refine text_injective ?_
  rw [hname.text_eq.1, hother.text_eq.1, hstem]

/-- An output is no source. -/
theorem outputEntry?_not_source (h : name.outputEntry? = some output) : ¬ output.IsSource := by
  intro hsource
  have htext := (outputEntry?_text h).symm.trans hsource.text_eq.1
  have hlast := congrArg (fun text => text.toList.getLast?) htext
  simp [String.toList_append] at hlast

end EntryName

/-! ## Where outputs go -/

/-- The directory that the outputs of a directory go to. -/
def Config.target (config : Config) (directory : Path) : Path :=
  config.outputDirectory.getD directory

theorem Path.fileName?_dots (directory : Path) : (directory.child "..").fileName? = none := by
  have hdots : "..".toList = ['.', '.'] := by decide
  rw [fileName?, directory.split_child (by decide) (by decide) (by decide)]
  exact if_pos (.inr (.inr hdots))

section

variable {config : Config} {directory : Path} {name output : EntryName}

theorem outputPath_dots (hextension : config.outputExtension = "vm") (hname : name.IsSource)
    (h : name.outputEntry? = none) : config.outputPath (directory.child name.text) =
      directory.child ".." := by
  rcases hname.outputEntry?_eq with ⟨hdot, -⟩ | ⟨-, output, houtput⟩
  · have hpath : (directory.child name.text).withExtension config.outputExtension =
        directory.child ".." := by
      rw [hextension, directory.withExtension_child name (by decide), if_pos hdot]
    unfold Config.outputPath
    dsimp only
    rw [hpath, Path.fileName?_dots]
    cases config.outputDirectory <;> rfl
  · rw [h] at houtput
    cases houtput

theorem outputPath_eq (hextension : config.outputExtension = "vm") (hname : name.IsSource)
    (h : name.outputEntry? = some output) : config.outputPath (directory.child name.text) =
      (config.target directory).child output.text := by
  rcases hname.outputEntry?_eq with ⟨-, hnone⟩ | ⟨hdot, -⟩
  · rw [h] at hnone
    cases hnone
  · have hpath : (directory.child name.text).withExtension config.outputExtension =
        directory.child output.text := by
      rw [hextension, directory.withExtension_child name (by decide), if_neg hdot,
        EntryName.outputEntry?_text h, String.append_assoc]
      rfl
    unfold Config.outputPath Config.target
    dsimp only
    rw [hpath, Path.fileName?_child]
    cases config.outputDirectory <;> rfl

end

namespace FileSystem

variable {files : FileSystem} {config : Config} {directory : Path} {place : Place}
  {name output : EntryName} {compiled : CompiledClass}

theorem findNew_dots {taken : IoError} (h : files.directoryOf directory = .ok place) :
    files.findNew (directory.child "..") taken = .error taken := by
  have hstart : files.startOf (directory.child "..") = files.startOf directory := by
    unfold startOf
    rw [Path.isAbsolute_child directory (by decide)]
  rw [findNew_eq (directory.child_text_ne (by decide)) directory.components_dots, hstart]
  rw [directoryOf] at h
  rw [h]
  rfl

/-- The bytes of the code of a class. -/
def bytesOf (compiled : CompiledClass) : List UInt8 := compiled.code.toByteArray.toList

/-- The output of a file whose stem is a dot cannot be written. -/
theorem writeCode_dots (hextension : config.outputExtension = "vm") (hname : name.IsSource)
    (h : name.outputEntry? = none) (hdirectory : files.directoryOf directory = .ok place) :
    files.writeCode config (directory.child name.text) compiled =
      (.error (.io .isDirectory), files) := by
  unfold writeCode writeFile
  rw [outputPath_dots hextension hname h, findNew_dots hdirectory]

/-- An output is written to its directory, if that is one and has no directory with its name. -/
theorem writeCode_eq (hextension : config.outputExtension = "vm") (hname : name.IsSource)
    (h : name.outputEntry? = some output) :
    files.writeCode config (directory.child name.text) compiled =
      match files.directoryOf (config.target directory) with
      | .error error => (.error (.io error), files)
      | .ok place =>
        if files.node? (place ++ [output]) = some .directory then (.error (.io .isDirectory), files)
        else (.ok ((config.target directory).child output.text),
          files.insert (place ++ [output]) (.file (bytesOf compiled))) := by
  unfold writeCode writeFile
  rw [outputPath_eq hextension hname h, findNew_child,
    Path.endsWithSeparator_child _ output.valid.1 output.valid.2.1]
  cases files.directoryOf (config.target directory) with
  | error error => rfl
  | ok place =>
    simp only [Except.map, Bool.false_eq_true, if_false]
    cases files.node? (place ++ [output]) with
    | none => simp [bytesOf]
    | some node => cases node <;> simp [bytesOf]

/-- The place of the output of a source in a directory. -/
def outputPlace? (files : FileSystem) (config : Config) (directory : Path) (name : EntryName) :
    Option Place :=
  match files.directoryOf (config.target directory), name.outputEntry? with
  | .ok place, some output => some (place ++ [output])
  | _, _ => none

theorem outputPlace?_eq_some : files.outputPlace? config directory name = some place ↔
    ∃ target output, files.directoryOf (config.target directory) = .ok target ∧
      name.outputEntry? = some output ∧ place = target ++ [output] := by
  unfold outputPlace?
  cases files.directoryOf (config.target directory) with
  | error error => simp
  | ok target => cases name.outputEntry? <;> simp [eq_comm]

/-- The outputs of two sources stand at two places. -/
theorem outputPlace?_injective {other : EntryName} (hname : name.IsSource) (hother : other.IsSource)
    (h : files.outputPlace? config directory name = some place)
    (h' : files.outputPlace? config directory other = some place) : name = other := by
  obtain ⟨target, output, htarget, houtput, rfl⟩ := outputPlace?_eq_some.mp h
  obtain ⟨target', output', htarget', houtput', hplace⟩ := outputPlace?_eq_some.mp h'
  obtain ⟨-, hsame⟩ := List.append_inj' hplace rfl
  cases hsame
  exact EntryName.outputEntry?_injective hname hother houtput houtput'

/-- No output stands at the place of a source. -/
theorem outputPlace?_not_source {other : EntryName}
    (h : files.outputPlace? config directory name = some (place ++ [other])) :
    ¬ other.IsSource := by
  obtain ⟨target, output, -, houtput, hplace⟩ := outputPlace?_eq_some.mp h
  obtain ⟨-, hsame⟩ := List.append_inj' hplace rfl
  cases hsame
  exact EntryName.outputEntry?_not_source houtput

/-- An output is found at its place. -/
theorem find_output {bytes : List UInt8} (hextension : config.outputExtension = "vm")
    (hname : name.IsSource) (h : files.outputPlace? config directory name = some place)
    (hnode : files.node? place = some (.file bytes)) :
    files.find (config.outputPath (directory.child name.text)) = .ok (place, .file bytes) := by
  obtain ⟨target, output, htarget, houtput, rfl⟩ := outputPlace?_eq_some.mp h
  rw [outputPath_eq hextension hname houtput, find_child htarget, hnode]

/-- What writing an output gives depends on the directory that it goes to and on what stands at its
place. -/
theorem writeCode_result {later : FileSystem} (hextension : config.outputExtension = "vm")
    (hname : name.IsSource) (hdirectory : files.directoryOf directory = .ok place)
    (hlater : later.directoryOf directory = .ok place)
    (htarget : later.directoryOf (config.target directory) =
      files.directoryOf (config.target directory))
    (hnode : ∀ place, files.outputPlace? config directory name = some place →
      later.node? place = files.node? place) :
    (later.writeCode config (directory.child name.text) compiled).1 =
      (files.writeCode config (directory.child name.text) compiled).1 := by
  cases houtput : name.outputEntry? with
  | none =>
    rw [writeCode_dots hextension hname houtput hdirectory,
      writeCode_dots hextension hname houtput hlater]
  | some output =>
    rw [writeCode_eq hextension hname houtput, writeCode_eq hextension hname houtput, htarget]
    cases hplace : files.directoryOf (config.target directory) with
    | error error => rfl
    | ok target =>
      dsimp only
      rw [hnode _ (outputPlace?_eq_some.mpr ⟨target, output, hplace, houtput, rfl⟩)]
      split <;> rfl

theorem writeCode_ok {later : FileSystem} {path : Path} (hextension : config.outputExtension = "vm")
    (hname : name.IsSource) (hdirectory : files.directoryOf directory = .ok place)
    (h : files.writeCode config (directory.child name.text) compiled = (.ok path, later)) :
    path = config.outputPath (directory.child name.text) ∧
      ∃ place, files.outputPlace? config directory name = some place ∧
        files.node? place ≠ some .directory ∧
        later = files.insert place (.file (bytesOf compiled)) := by
  cases houtput : name.outputEntry? with
  | none =>
    rw [writeCode_dots hextension hname houtput hdirectory] at h
    cases h
  | some output =>
    rw [writeCode_eq hextension hname houtput] at h
    cases htarget : files.directoryOf (config.target directory) with
    | error error =>
      rw [htarget] at h
      cases h
    | ok target =>
      rw [htarget] at h
      dsimp only at h
      split at h
      · cases h
      · rename_i hnode
        cases h
        exact ⟨(outputPath_eq hextension hname houtput).symm, _,
          outputPlace?_eq_some.mpr ⟨target, output, htarget, houtput, rfl⟩, hnode, rfl⟩

theorem writeCode_error {source : Path} {later : FileSystem} {error : Error}
    (h : files.writeCode config source compiled = (.error error, later)) : later = files := by
  unfold writeCode at h
  split at h
  · cases h
    rfl
  · cases h

/-! ## The sources of a directory -/

theorem nameIn_eq_some {directory : Place} :
    nameIn directory place = some name ↔ place = directory ++ [name] := by
  unfold nameIn
  constructor
  · intro h
    split at h
    · rename_i hdirectory
      rw [← hdirectory, List.dropLast_append_getLast? name h]
    · cases h
  · rintro rfl
    rw [List.dropLast_concat, if_pos rfl, List.getLast?_concat]

/-- The names of what stands right below a place. -/
def namesBelow (files : FileSystem) (place : Place) : List EntryName :=
  files.nodes.filterMap fun entry => nameIn place entry.1

theorem mem_namesBelow : name ∈ files.namesBelow place ↔
    ∃ node, files.node? (place ++ [name]) = some node := by
  unfold namesBelow node?
  rw [if_neg (by simp), ← Option.isSome_iff_exists, List.lookup_isSome_iff, List.mem_filterMap]
  refine exists_congr fun entry => and_congr_right fun _ => ?_
  rw [nameIn_eq_some, beq_iff_eq, eq_comm]

theorem namesBelow_nodup (files : FileSystem) (place : Place) : (files.namesBelow place).Nodup := by
  have hplaces : files.namesBelow place = (files.nodes.map Prod.fst).filterMap (nameIn place) := by
    rw [List.filterMap_map]
    rfl
  rw [hplaces]
  refine files.nodup.filterMap fun first second name hfirst hsecond => ?_
  rw [nameIn_eq_some.mp hfirst, nameIn_eq_some.mp hsecond]

/-- The names of what stands right below a place, in order. -/
def sortedBelow (files : FileSystem) (place : Place) : List EntryName :=
  (files.namesBelow place).mergeSort fun first second => decide (first.text ≤ second.text)

theorem sortedBelow_pairwise (files : FileSystem) (place : Place) :
    (files.sortedBelow place).Pairwise fun first second => first.text < second.text := by
  have hsorted : (files.sortedBelow place).Pairwise fun first second =>
      decide (first.text ≤ second.text) = true := by
    refine List.pairwise_mergeSort (fun a b c hab hbc => ?_) (fun a b => ?_) _
    · rw [decide_eq_true_eq] at hab hbc ⊢
      exact le_trans hab hbc
    · simpa using le_total a.text b.text
  have hnodup : (files.sortedBelow place).Nodup :=
    ((files.namesBelow place).mergeSort_perm _).nodup_iff.mpr (files.namesBelow_nodup place)
  exact (hsorted.and hnodup).imp fun h =>
    lt_of_le_of_ne (of_decide_eq_true h.1) fun htext => h.2 (EntryName.text_injective htext)

theorem entryKind_child (hplace : files.directoryOf directory = .ok place) :
    files.entryKind (directory.child name.text) = .ok .file ↔
      ∃ bytes, files.node? (place ++ [name]) = some (.file bytes) := by
  unfold entryKind
  rw [find_child hplace]
  cases files.node? (place ++ [name]) with
  | none => simp
  | some node => cases node <;> simp

/-- The names of the sources of a directory, in order. -/
def sourceNames (files : FileSystem) (config : Config) (directory : Path) (place : Place) :
    List EntryName :=
  (files.sortedBelow place).filter fun name =>
    decide (files.entryKind (directory.child name.text) = .ok .file) &&
      config.isSource (directory.child name.text)

theorem mem_sourceNames (hdirectory : files.directoryOf directory = .ok place) :
    name ∈ files.sourceNames config directory place ↔
      (∃ bytes, files.node? (place ++ [name]) = some (.file bytes)) ∧
        (Path.splitName name.text).2 = some config.sourceExtension := by
  have hsource : config.isSource (directory.child name.text) = true ↔
      (Path.splitName name.text).2 = some config.sourceExtension := by
    rw [Config.isSource, decide_eq_true_eq, Path.extension?_child]
  rw [sourceNames, List.mem_filter, Bool.and_eq_true, decide_eq_true_eq, hsource,
    entryKind_child hdirectory, sortedBelow, List.mem_mergeSort, mem_namesBelow]
  constructor
  · rintro ⟨-, hfile, hsource⟩
    exact ⟨hfile, hsource⟩
  · rintro ⟨⟨bytes, hfile⟩, hsource⟩
    exact ⟨⟨_, hfile⟩, ⟨bytes, hfile⟩, hsource⟩

theorem sourcesOf_eq {path : Path} {sources : List Path}
    (hpath : files.find path = .ok (place, .directory))
    (h : files.sourcesOf config path = .ok sources) :
    sources = (files.sourceNames config path place).map (path.child ·.text) := by
  have hkind : files.entryKind path = .ok .directory :=
    entryKind_eq_directory.mpr
      ⟨(find_eq_directory.mp hpath).1, place, (find_eq_directory.mp hpath).2⟩
  have hnames : files.entryNames path = .ok (files.namesBelow place) := by
    rw [entryNames, hpath]
    rfl
  have hsources : sources = files.sourcesAmong config path
      ((files.namesBelow place).map (·.text)) := by
    unfold sourcesOf sourcesIn at h
    rw [hkind, hnames] at h
    dsimp only at h
    split at h
    · cases h
    · exact (Except.ok.inj h).symm
  have hsorted : ((files.namesBelow place).map (·.text)).mergeSort (· ≤ ·) =
      (files.sortedBelow place).map (·.text) := by
    rw [sortedBelow, List.map_mergeSort]
    intro first _ second _
    rfl
  rw [hsources, sourcesAmong, hsorted, List.map_map, List.filter_map]
  rfl

/-- The sources of a directory are its regular files with the extension of sources, in order. -/
theorem sourcesOf_directory {path : Path} {sources : List Path}
    (hextension : config.sourceExtension = "jack")
    (hpath : files.find path = .ok (place, .directory))
    (h : files.sourcesOf config path = .ok sources) :
    ∃ names : List EntryName, sources = names.map (path.child ·.text) ∧
      (names.Pairwise fun first second => first.text < second.text) ∧
      ∀ name, name ∈ names ↔
        (∃ bytes, files.node? (place ++ [name]) = some (.file bytes)) ∧ name.IsSource := by
  refine ⟨files.sourceNames config path place, sourcesOf_eq hpath h, ?_, fun name => ?_⟩
  · exact (files.sortedBelow_pairwise place).filter _
  · rw [mem_sourceNames (find_eq_directory.mp hpath).2, hextension]
    rfl

end FileSystem

end JackCompiler
