import JackCompiler.Proofs.Isolation
/-!
# Outputs that meet

Two sources of a directory have one output only if outputs have no extension and the stems are one
and two dots: with the extension cut off both names become steps to the directory above
(`outputs_apart`). An output with an extension of its own is never a source. Paths are told apart by
the steps that they take and not only by their texts (`Path.Same`).
-/

namespace JackCompiler

/-! ## Paths that lead to one place -/

namespace Path

variable {directory other : Path} {name name' : EntryName}

/-- The paths take the same steps from the same start. Steps that stay do not count. -/
def Same (a b : Path) : Prop :=
  a.isAbsolute = b.isAbsolute ∧
    a.components.filter (· ≠ .current) = b.components.filter (· ≠ .current)

theorem Same.refl (path : Path) : path.Same path := ⟨rfl, rfl⟩

theorem Same.symm {a b : Path} (h : a.Same b) : b.Same a := ⟨h.1.symm, h.2.symm⟩

/-- Two paths that lead to one place end with the same step. -/
theorem Same.last {a b : Path} {before before' : List Component} {last last' : Component}
    (h : a.Same b) (ha : a.components = before ++ [last]) (hb : b.components = before' ++ [last'])
    (hlast : last ≠ .current) (hlast' : last' ≠ .current) : last = last' := by
  have hsteps := h.2
  rw [ha, hb, List.filter_append, List.filter_append, List.filter_singleton,
    List.filter_singleton] at hsteps
  simp only [hlast, hlast', ne_eq, not_false_eq_true, decide_true] at hsteps
  exact List.singleton_inj.mp (List.append_inj' hsteps rfl).2

theorem Same.name_eq (h : (directory.child name.text).Same (other.child name'.text)) :
    name = name' := by
  have hlast := h.last (components_child _ _) (components_child _ _) (by simp) (by simp)
  exact Component.entry.inj hlast

/-- The directory above is no file. -/
theorem not_same_dots : ¬ (directory.child "..").Same (other.child name.text) := by
  intro h
  have hlast := h.last (components_dots _) (components_child _ _) (by simp) (by simp)
  cases hlast

end Path

/-! ## Names of outputs -/

namespace EntryName

variable {name other output : EntryName} {source extension : String}

/-- The file has an extension. -/
def HasExtension (name : EntryName) (extension : String) : Prop :=
  (Path.splitName name.text).2 = some extension

theorem HasExtension.text_eq (h : name.HasExtension source) :
    name.text = (Path.splitName name.text).1 ++ "." ++ source ∧
      (Path.splitName name.text).1 ≠ "" := Path.splitName_eq (Prod.ext rfl h)

/-- Files with one extension are told apart by their stems. -/
theorem HasExtension.stem_injective (hname : name.HasExtension source)
    (hother : other.HasExtension source)
    (h : (Path.splitName name.text).1 = (Path.splitName other.text).1) : name = other := by
  refine text_injective ?_
  rw [hname.text_eq.1, hother.text_eq.1, h]

/-- The name that a file has with another extension, or with none. If only dots are left that lead
elsewhere it has none. -/
def renamed? (name : EntryName) (extension : String) : Option EntryName :=
  let stem := (Path.splitName name.text).1
  if h : stem ≠ "." ∧ IsEntryName (stem ++ Path.suffix extension) then
    some ⟨stem ++ Path.suffix extension, h.2⟩
  else none

theorem renamed?_text (h : name.renamed? extension = some output) :
    output.text = (Path.splitName name.text).1 ++ Path.suffix extension := by
  unfold renamed? at h
  dsimp only at h
  split at h
  · cases h
    rfl
  · cases h

theorem isEntryName_suffix {stem : String} (hstem : stem ≠ "") (hstemslash : '/' ∉ stem.toList)
    (hslash : '/' ∉ extension.toList) : IsEntryName (stem ++ Path.suffix extension) ↔
      extension ≠ "" ∨ stem ≠ "." ∧ stem ≠ ".." := by
  by_cases hextension : extension = ""
  · rw [Path.suffix, if_pos hextension, String.append_empty]
    simp [IsEntryName, hstem, hstemslash, hextension]
  · refine iff_of_true ?_ (.inl hextension)
    rw [Path.suffix, if_neg hextension]
    have hlength : 3 ≤ (stem ++ ("." ++ extension)).length := by
      have hstem : stem.length ≠ 0 := fun h => hstem (String.length_eq_zero_iff.mp h)
      have hextension : extension.length ≠ 0 := fun h => hextension (String.length_eq_zero_iff.mp h)
      have hdot : ".".length = 1 := by decide
      rw [String.length_append, String.length_append, hdot]
      omega
    have hlong {text : String} (htext : text.length < 3) : stem ++ ("." ++ extension) ≠ text := by
      rintro rfl
      omega
    refine ⟨hlong (by decide), ?_, hlong (by decide), hlong (by decide)⟩
    simp [String.toList_append, hstemslash, hslash]

theorem HasExtension.stem_slash (hname : name.HasExtension source) :
    '/' ∉ (Path.splitName name.text).1.toList := by
  have hvalid := name.valid.2.1
  rw [hname.text_eq.1, String.toList_append, String.toList_append] at hvalid
  exact fun hmem => hvalid (List.mem_append_left _ (List.mem_append_left _ hmem))

/-- Only a stem of a dot, or one of two dots behind which nothing is written, leaves no name. -/
theorem HasExtension.renamed?_eq_none (hname : name.HasExtension source)
    (hslash : '/' ∉ extension.toList) : name.renamed? extension = none ↔
      (Path.splitName name.text).1 = "." ∨
        extension = "" ∧ (Path.splitName name.text).1 = ".." := by
  have hnone : name.renamed? extension = none ↔ ¬ ((Path.splitName name.text).1 ≠ "." ∧
      IsEntryName ((Path.splitName name.text).1 ++ Path.suffix extension)) := by
    unfold renamed?
    simp
  rw [hnone, isEntryName_suffix hname.text_eq.2 hname.stem_slash hslash]
  by_cases hdot : (Path.splitName name.text).1 = "."
  · simp [hdot]
  · by_cases hextension : extension = "" <;> simp [hdot, hextension]

/-- Files with one extension that have one name with another one are one file. -/
theorem HasExtension.renamed?_injective (hname : name.HasExtension source)
    (hother : other.HasExtension source) (h : name.renamed? extension = some output)
    (h' : other.renamed? extension = some output) : name = other := by
  have htexts := (renamed?_text h).symm.trans (renamed?_text h')
  refine hname.stem_injective hother ?_
  rw [← String.toList_inj, String.toList_append, String.toList_append] at htexts
  exact String.toList_inj.mp (List.append_cancel_right htexts)

/-- A renamed file has the new extension, if that is one. -/
theorem HasExtension.renamed (hname : name.HasExtension source) (hne : extension ≠ "")
    (hdot : '.' ∉ extension.toList) (h : name.renamed? extension = some output) :
    output.HasExtension extension := by
  have htext := renamed?_text h
  rw [Path.suffix, if_neg hne, ← String.append_assoc] at htext
  rw [HasExtension, htext, Path.splitName_append hname.text_eq.2 hdot]

end EntryName

/-! ## Where outputs go -/

section

variable {config : Config} {directory : Path} {name output : EntryName}

theorem outputPath_renamed (h : name.renamed? config.outputExtension = some output) :
    config.outputPath (directory.child name.text) = (config.target directory).child output.text := by
  have hdot : (Path.splitName name.text).1 ≠ "." := by
    intro hdot
    simp [EntryName.renamed?, hdot] at h
  have hpath : (directory.child name.text).withExtension config.outputExtension =
      directory.child output.text := by
    rw [directory.withExtension_suffix, if_neg hdot, EntryName.renamed?_text h]
  unfold Config.outputPath Config.target
  dsimp only
  rw [hpath, Path.fileName?_child]
  cases config.outputDirectory <;> rfl

/-- Where no name is left the output is the directory above. -/
theorem outputPath_none {source : String} (hname : name.HasExtension source)
    (hslash : '/' ∉ config.outputExtension.toList)
    (h : name.renamed? config.outputExtension = none) :
    config.outputPath (directory.child name.text) = directory.child ".." := by
  have hpath : (directory.child name.text).withExtension config.outputExtension =
      directory.child ".." := by
    rw [directory.withExtension_suffix]
    rcases (hname.renamed?_eq_none hslash).mp h with hdot | ⟨hextension, hdots⟩
    · rw [if_pos hdot]
    · rw [hextension, hdots, if_neg (by decide)]
      rfl
  unfold Config.outputPath
  dsimp only
  rw [hpath, Path.fileName?_dots]
  cases config.outputDirectory <;> rfl

/-! ## Outputs that meet -/

/-- Outputs have no extension, and these are the files whose stems are one and two dots. -/
def Config.Meet (config : Config) (directory first second : Path) : Prop :=
  config.outputExtension = "" ∧ first = directory.child (".." ++ config.sourceExtension) ∧
    second = directory.child ("..." ++ config.sourceExtension)

variable {other : EntryName}

theorem EntryName.HasExtension.text_dots {source dots : String} (hname : name.HasExtension source)
    (hstem : (Path.splitName name.text).1 = dots) :
    directory.child name.text = directory.child (dots ++ "." ++ source) := by
  rw [hname.text_eq.1, hstem]

/-- A file in a directory that begins with a stem and a dot has that stem. -/
theorem EntryName.HasExtension.stem_eq {source stem : String} (hname : name.HasExtension source)
    (h : directory.child name.text = directory.child (stem ++ "." ++ source)) :
    (Path.splitName name.text).1 = stem := by
  have htexts := congrArg (fun path => path.text.toList) h
  simp only [Path.child_toList] at htexts
  have htext := String.toList_inj.mp (List.append_cancel_left htexts)
  rw [hname.text_eq.1, ← String.toList_inj] at htext
  simp only [String.toList_append] at htext
  exact String.toList_inj.mp (List.append_cancel_right (List.append_cancel_right htext))

/-- The outputs of these two files are one path. -/
theorem Config.Meet.outputPath_eq
    (h : config.Meet directory (directory.child name.text) (directory.child other.text))
    (hslash : '/' ∉ config.outputExtension.toList)
    (hname : name.HasExtension config.sourceExtension)
    (hother : other.HasExtension config.sourceExtension) :
    config.outputPath (directory.child name.text) =
      config.outputPath (directory.child other.text) := by
  obtain ⟨hextension, hfirst, hsecond⟩ := h
  have hnone : name.renamed? config.outputExtension = none :=
    (hname.renamed?_eq_none hslash).mpr (.inl (hname.stem_eq hfirst))
  have hnone' : other.renamed? config.outputExtension = none :=
    (hother.renamed?_eq_none hslash).mpr (.inr ⟨hextension, hother.stem_eq hsecond⟩)
  rw [outputPath_none hname hslash hnone, outputPath_none hother hslash hnone']

/-- No other outputs lead to one place. -/
theorem meet_of_same (hslash : '/' ∉ config.outputExtension.toList)
    (hname : name.HasExtension config.sourceExtension)
    (hother : other.HasExtension config.sourceExtension) (hne : name ≠ other)
    (h : (config.outputPath (directory.child name.text)).Same
      (config.outputPath (directory.child other.text))) :
    config.Meet directory (directory.child name.text) (directory.child other.text) ∨
      config.Meet directory (directory.child other.text) (directory.child name.text) := by
  cases hrenamed : name.renamed? config.outputExtension with
  | some output =>
    rw [outputPath_renamed hrenamed] at h
    cases hrenamed' : other.renamed? config.outputExtension with
    | some output' =>
      rw [outputPath_renamed hrenamed'] at h
      rw [← h.name_eq] at hrenamed'
      exact absurd (hname.renamed?_injective hother hrenamed hrenamed') hne
    | none =>
      rw [outputPath_none hother hslash hrenamed'] at h
      exact absurd h.symm Path.not_same_dots
  | none =>
    rw [outputPath_none hname hslash hrenamed] at h
    cases hrenamed' : other.renamed? config.outputExtension with
    | some output' =>
      rw [outputPath_renamed hrenamed'] at h
      exact absurd h Path.not_same_dots
    | none =>
      have hstems : (Path.splitName name.text).1 ≠ (Path.splitName other.text).1 :=
        fun h => hne (hname.stem_injective hother h)
      rcases (hname.renamed?_eq_none hslash).mp hrenamed with hone | ⟨hextension, htwo⟩ <;>
        rcases (hother.renamed?_eq_none hslash).mp hrenamed' with hone' | ⟨hextension', htwo'⟩
      · exact absurd (hone.trans hone'.symm) hstems
      · exact .inl ⟨hextension', hname.text_dots hone, hother.text_dots htwo'⟩
      · exact .inr ⟨hextension, hother.text_dots hone', hname.text_dots htwo⟩
      · exact absurd (htwo.trans htwo'.symm) hstems

/-- An output with an extension of its own is no source, wherever outputs go. -/
theorem not_same_source (hslash : '/' ∉ config.outputExtension.toList)
    (hne : config.outputExtension ≠ "") (hdot : '.' ∉ config.outputExtension.toList)
    (hextension : config.outputExtension ≠ config.sourceExtension)
    (hname : name.HasExtension config.sourceExtension)
    (hother : other.HasExtension config.sourceExtension) :
    ¬ (config.outputPath (directory.child name.text)).Same (directory.child other.text) := by
  intro h
  cases hrenamed : name.renamed? config.outputExtension with
  | none =>
    rw [outputPath_none hname hslash hrenamed] at h
    exact Path.not_same_dots h
  | some output =>
    rw [outputPath_renamed hrenamed] at h
    have hsource := hname.renamed hne hdot hrenamed
    rw [h.name_eq] at hsource
    exact hextension (Option.some.inj (hsource.symm.trans hother))

end

/-! ## The outputs of a directory -/

/-- How the outputs of the sources of a directory stand to each other and to the sources. -/
structure OutputsApart (config : Config) (directory : Path) (sources : List Path) : Prop where
  /-- No source is listed twice. -/
  nodup : sources.Nodup
  /-- Two sources have one output only if these are the two files of dots. -/
  meet : ∀ a ∈ sources, ∀ b ∈ sources, a ≠ b →
    (config.outputPath a = config.outputPath b ↔
      config.Meet directory a b ∨ config.Meet directory b a)
  /-- Outputs with different texts do not lead to one place. -/
  same : ∀ a ∈ sources, ∀ b ∈ sources,
    (config.outputPath a).Same (config.outputPath b) → config.outputPath a = config.outputPath b
  /-- No output with an extension of its own is one of the sources, wherever outputs go. -/
  fresh : config.outputExtension ≠ "" → '.' ∉ config.outputExtension.toList →
    config.outputExtension ≠ config.sourceExtension →
    ∀ a ∈ sources, ∀ b ∈ sources, ¬ (config.outputPath a).Same b

/-- The outputs of a directory are apart, unless they have no extension and there are sources whose
stems are one and two dots. -/
theorem Build.outputs_apart {config : Config} (hslash : '/' ∉ config.outputExtension.toList)
    {path : Path} {session : Session} {place : Place} {sources : List Path}
    (hdirectory : session.files.find path = .ok (place, .directory))
    (hsources : ((findSources config path :
      ExceptT Error (StateM Session) (List Path)).run session).1 = .ok sources) :
    OutputsApart config path sources := by
  have hfound : session.files.sourcesOf config path = .ok sources :=
    ((findSources_does config path).result session).symm.trans hsources
  have hplace := (FileSystem.find_eq_directory.mp hdirectory).2
  obtain rfl := FileSystem.sourcesOf_eq hdirectory hfound
  have hnames : ∀ source ∈ (session.files.sourceNames config path place).map (path.child ·.text),
      ∃ name : EntryName, source = path.child name.text ∧
        name.HasExtension config.sourceExtension := by
    intro source hsource
    obtain ⟨name, hname, rfl⟩ := List.mem_map.mp hsource
    exact ⟨name, rfl, ((FileSystem.mem_sourceNames hplace).mp hname).2⟩
  constructor
  case nodup =>
    have hsorted := (session.files.sortedBelow_pairwise place).filter fun name =>
      decide (session.files.entryKind (path.child name.text) = .ok .file) &&
        config.isSource (path.child name.text)
    have hnodup : (session.files.sourceNames config path place).Nodup :=
      hsorted.imp fun h heq => (heq ▸ h).ne rfl
    exact hnodup.map fun _ _ h => EntryName.child_injective h
  case meet =>
    intro a ha b hb hne
    obtain ⟨name, rfl, hname⟩ := hnames a ha
    obtain ⟨other, rfl, hother⟩ := hnames b hb
    constructor
    · intro h
      refine meet_of_same hslash hname hother (fun h => hne (by rw [h])) ?_
      rw [h]
      exact .refl _
    · rintro (hmeet | hmeet)
      · exact hmeet.outputPath_eq hslash hname hother
      · exact (hmeet.outputPath_eq hslash hother hname).symm
  case same =>
    intro a ha b hb h
    obtain ⟨name, rfl, hname⟩ := hnames a ha
    obtain ⟨other, rfl, hother⟩ := hnames b hb
    by_cases hne : name = other
    · rw [hne]
    · rcases meet_of_same hslash hname hother hne h with hmeet | hmeet
      · exact hmeet.outputPath_eq hslash hname hother
      · exact (hmeet.outputPath_eq hslash hother hname).symm
  case fresh =>
    intro hne hdot hextension a ha b hb
    obtain ⟨name, rfl, hname⟩ := hnames a ha
    obtain ⟨other, rfl, hother⟩ := hnames b hb
    exact not_same_source hslash hne hdot hextension hname hother

theorem isEntryName_directory : IsEntryName "d" := by decide

theorem isEntryName_class : IsEntryName "A.jack" := by decide

/-- A directory `d` with a class and with two files whose stems are dots. -/
def dotted : Session where
  files :=
    let directory : EntryName := ⟨"d", isEntryName_directory⟩
    { nodes := [([directory], .directory),
        ([directory, ⟨"...jack", by decide⟩], .file []),
        ([directory, ⟨"..jack", by decide⟩], .file []),
        ([directory, ⟨"A.jack", isEntryName_class⟩], .file [])]
      nodup := by decide }

theorem dotted_sources :
    ((Build.findSources { outputExtension := "" } ⟨"d"⟩ :
      ExceptT Error (StateM Session) (List Path)).run dotted).1 =
      .ok [⟨"d/...jack"⟩, ⟨"d/..jack"⟩, ⟨"d/A.jack"⟩] := by
  have hkind : dotted.files.entryKind ⟨"d"⟩ = .ok .directory := by decide +kernel
  have hnames : dotted.files.entryNames ⟨"d"⟩ =
      .ok [⟨"...jack", by decide⟩, ⟨"..jack", by decide⟩, ⟨"A.jack", by decide⟩] := by
    decide +kernel
  have hsorted : ["...jack", "..jack", "A.jack"].mergeSort (· ≤ ·) =
      ["...jack", "..jack", "A.jack"] := List.mergeSort_of_pairwise (by decide)
  refine ((findSources_does _ _).result dotted).trans ?_
  simp only [FileSystem.sourcesOf, FileSystem.sourcesIn, FileSystem.sourcesAmong, hkind, hnames,
    List.map_cons, List.map_nil, hsorted]
  decide +kernel

theorem dotted_outputs_apart :
    let sources : List Path := [⟨"d/...jack"⟩, ⟨"d/..jack"⟩, ⟨"d/A.jack"⟩]
    '/' ∉ "".toList ∧ dotted.files.find ⟨"d"⟩ = .ok ([⟨"d", by decide⟩], .directory) ∧
      ((Build.findSources { outputExtension := "" } ⟨"d"⟩ :
        ExceptT Error (StateM Session) (List Path)).run dotted).1 = .ok sources ∧
      OutputsApart { outputExtension := "" } ⟨"d"⟩ sources := by
  have hdirectory : dotted.files.find ⟨"d"⟩ = .ok ([⟨"d", by decide⟩], .directory) := by
    decide +kernel
  have hslash : '/' ∉ "".toList := by decide
  exact ⟨hslash, hdirectory, dotted_sources,
    Build.outputs_apart hslash hdirectory dotted_sources⟩

/-- Both files of dots would be written to the directory above. -/
theorem dotted_outputs_meet :
    ((Build.findSources { outputExtension := "" } ⟨"d"⟩ :
      ExceptT Error (StateM Session) (List Path)).run dotted).1 =
      .ok [⟨"d/...jack"⟩, ⟨"d/..jack"⟩, ⟨"d/A.jack"⟩] ∧
    (⟨"d/...jack"⟩ : Path) ≠ ⟨"d/..jack"⟩ ∧
    ({ outputExtension := "" } : Config).outputPath ⟨"d/...jack"⟩ = ⟨"d/.."⟩ ∧
    ({ outputExtension := "" } : Config).outputPath ⟨"d/..jack"⟩ = ⟨"d/.."⟩ :=
  ⟨dotted_sources, by decide, by decide +kernel, by decide +kernel⟩

end JackCompiler
