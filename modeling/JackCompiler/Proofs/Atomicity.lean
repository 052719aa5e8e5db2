import JackCompiler.Proofs.Isolation
import JackCompiler.Proofs.Writing
/-!
# A build of one file is all or nothing

Whatever goes wrong, a source that is compiled or tokenized leaves every file as it was, and makes
none; once it is done, the one file that may have changed is its output, with all of the text that
comes of the source (`file_builds_all_or_nothing`). This holds on every host whose operations either
fail and change nothing or do what they do to a file system (`Host.Plain`).
-/

namespace JackCompiler

/-! ## Hosts -/

/-- A host whose state holds plain files and directories. An operation that fails, for whatever
reason, changes nothing; one that does not does what it does to a file system. -/
structure Host.Plain (σ : Type) [Host (StateM σ)] where
  files : σ → FileSystem
  entryKind_keeps (path : Path) (state : σ) :
    files ((Host.entryKind path : StateM σ (Except IoError EntryKind)) state).2 = files state
  readFile_keeps (path : Path) (state : σ) :
    files ((Host.readFile path : StateM σ (Except IoError (List UInt8))) state).2 = files state
  readFile_ok {path : Path} {state : σ} {bytes : List UInt8}
    (h : ((Host.readFile path : StateM σ (Except IoError (List UInt8))) state).1 = .ok bytes) :
    (files state).readFile path = .ok bytes
  writeFile_ok {path : Path} {text : String} {state : σ}
    (h : ((Host.writeFile path text : StateM σ (Except IoError Unit)) state).1 = .ok ()) :
    (files state).writeFile path text.toByteArray.toList =
      .ok (files ((Host.writeFile path text : StateM σ (Except IoError Unit)) state).2)
  writeFile_error {path : Path} {text : String} {state : σ} {error : IoError}
    (h : ((Host.writeFile path text : StateM σ (Except IoError Unit)) state).1 = .error error) :
    files ((Host.writeFile path text : StateM σ (Except IoError Unit)) state).2 = files state
  makeDirectory_ok {path : Path} {state : σ}
    (h : ((Host.makeDirectory path : StateM σ (Except IoError Unit)) state).1 = .ok ()) :
    (files state).makeDirectory path =
      .ok (files ((Host.makeDirectory path : StateM σ (Except IoError Unit)) state).2)
  makeDirectory_error {path : Path} {state : σ} {error : IoError}
    (h : ((Host.makeDirectory path : StateM σ (Except IoError Unit)) state).1 = .error error) :
    files ((Host.makeDirectory path : StateM σ (Except IoError Unit)) state).2 = files state
  record_keeps (record : Log.Record) (state : σ) :
    files ((Host.record record : StateM σ Unit) state).2 = files state

theorem Session.update_ok {change : FileSystem → Except IoError FileSystem} {session : Session}
    (h : (update change session).1 = .ok ()) :
    change session.files = .ok (update change session).2.files := by
  unfold update at h ⊢
  cases hchange : change session.files with
  | ok files => rfl
  | error error =>
    rw [hchange] at h
    cases h

theorem Session.update_error {change : FileSystem → Except IoError FileSystem} {session : Session}
    {error : IoError} (h : (update change session).1 = .error error) :
    (update change session).2.files = session.files := by
  unfold update at h ⊢
  cases hchange : change session.files with
  | ok files =>
    rw [hchange] at h
    cases h
  | error error => rfl

/-- A file system that is a value is one whose operations fail only where they have to. -/
def Session.plain : Host.Plain Session where
  files := Session.files
  entryKind_keeps _ _ := rfl
  readFile_keeps _ _ := rfl
  readFile_ok h := h
  writeFile_ok h := update_ok h
  writeFile_error h := update_error h
  makeDirectory_ok h := update_ok h
  makeDirectory_error h := update_error h
  record_keeps _ _ := rfl

namespace Host.Plain

variable {σ : Type} [Host (StateM σ)] (host : Host.Plain σ) {α β : Type}

/-- A computation leaves files and directories as they are. -/
def Keeps (action : StateM σ α) : Prop :=
  ∀ state, host.files (action state).2 = host.files state

/-- A computation changes nothing but that it may make directories. -/
def Makes (action : StateM σ α) : Prop :=
  ∀ state, (host.files state).Extends (host.files (action state).2)

variable {host}

theorem Keeps.makes {action : StateM σ α} (h : host.Keeps action) : host.Makes action := by
  intro state
  rw [h state]
  exact .refl _

theorem Keeps.pure (a : α) : host.Keeps (Pure.pure a) := fun _ => rfl

theorem Keeps.bind {action : StateM σ α} {next : α → StateM σ β} (h : host.Keeps action)
    (hnext : ∀ a, host.Keeps (next a)) : host.Keeps (action >>= next) :=
  fun state => (hnext _ _).trans (h state)

theorem Makes.bind {action : StateM σ α} {next : α → StateM σ β} (h : host.Makes action)
    (hnext : ∀ a, host.Makes (next a)) : host.Makes (action >>= next) :=
  fun state => (h state).trans (hnext _ _)

theorem isKind_keeps (kind : EntryKind) (path : Path) :
    host.Keeps (Host.isKind kind path : StateM σ Bool) := by
  refine Keeps.bind (host.entryKind_keeps path) fun found => ?_
  cases found <;> exact Keeps.pure _

theorem makeDirectory_makes (path : Path) :
    host.Makes (Host.makeDirectory path : StateM σ (Except IoError Unit)) := by
  intro state
  cases hresult : ((Host.makeDirectory path : StateM σ (Except IoError Unit)) state).1 with
  | ok => exact FileSystem.makeDirectory_extends (host.makeDirectory_ok hresult)
  | error error =>
    rw [host.makeDirectory_error hresult]
    exact .refl _

/-- A directory that cannot be made may be there. -/
theorem excuse_makes (path : Path) (error : IoError) :
    host.Makes (do return if ← Host.isKind .directory path then .ok () else .error error :
      StateM σ (Except IoError Unit)) :=
  Keeps.makes ((isKind_keeps .directory path).bind fun _ => Keeps.pure _)

theorem makeFirst_makes (paths : List Path) :
    host.Makes (Host.makeFirst paths : StateM σ (Except IoError Unit)) := by
  induction paths with
  | nil => exact (Keeps.pure _).makes
  | cons path ancestors ih =>
    unfold Host.makeFirst
    split
    · exact (Keeps.pure _).makes
    · refine (makeDirectory_makes path).bind fun result => ?_
      cases result with
      | ok => exact (Keeps.pure _).makes
      | error error =>
        cases error with
        | notFound =>
          refine ih.bind fun above => ?_
          cases above with
          | error error => exact (Keeps.pure _).makes
          | ok =>
            refine (makeDirectory_makes path).bind fun result => ?_
            cases result with
            | ok => exact (Keeps.pure _).makes
            | error error => exact excuse_makes path error
        | fileExists | notDirectory | isDirectory | other => exact excuse_makes path _

theorem makeDirectories_makes (path : Path) :
    host.Makes (Host.makeDirectories path : StateM σ (Except IoError Unit)) :=
  makeFirst_makes path.ancestors

theorem recordAll_keeps (records : List Log.Record) :
    host.Keeps (Build.recordAll records : StateM σ Unit) := by
  induction records with
  | nil => exact Keeps.pure ()
  | cons record records ih => exact Keeps.bind (host.record_keeps record) fun _ => ih

theorem checkName_keeps (path : Path) (className : String) :
    host.Keeps (Build.checkName path className : StateM σ Unit) := by
  unfold Build.checkName
  split
  · split
    · exact Keeps.pure ()
    · exact host.record_keeps _
  · exact Keeps.pure ()

end Host.Plain

/-! ## Stages of a build -/

section

variable {σ α β : Type}

theorem run_lift_bind (action : StateM σ α) (next : α → ExceptT Error (StateM σ) β) (state : σ) :
    (ExceptT.lift action >>= next).run state =
      (next (action state).1).run (action state).2 := by
  rw [run_bind]
  rfl

theorem run_io_bind (action : StateM σ (Except IoError α)) (next : α → ExceptT Error (StateM σ) β)
    (state : σ) :
    (Host.io action >>= next).run state =
      match action state with
      | (.ok a, after) => (next a).run after
      | (.error error, after) => (.error (.io error), after) := by
  rw [run_bind]
  change (match ((action state).1.mapError Error.io, (action state).2) with
    | (.ok a, after) => (next a).run after
    | (.error error, after) => (.error error, after)) = _
  rcases action state with ⟨_ | _, after⟩ <;> rfl

end

namespace FileSystem

/-- What it can come to when a text is stored at a path: directories are made for it, and then it is
written, or it is not. -/
inductive Stored (files : FileSystem) (path : Path) (text : String) :
    Except Error Path → FileSystem → Prop
  | refused {error : Error} {later : FileSystem} (h : files.Extends later) :
    Stored files path text (.error error) later
  | written {made later : FileSystem} (h : files.Extends made)
    (hwrite : made.writeFile path text.toByteArray.toList = .ok later) :
    Stored files path text (.ok path) later

theorem Stored.behind {files made later : FileSystem} {path : Path} {text : String}
    {result : Except Error Path} (h : made.Stored path text result later)
    (hmade : files.Extends made) : files.Stored path text result later := by
  cases h with
  | refused h => exact .refused (hmade.trans h)
  | written h hwrite => exact .written (hmade.trans h) hwrite

variable {files later : FileSystem} {path written : Path} {text : String}

theorem Stored.failed {error : Error} (h : files.Stored path text (.error error) later) :
    files.SameFiles later := by
  cases h with
  | refused h => exact h.sameFiles

/-- Only the file that was written may be another. -/
theorem Stored.done (h : files.Stored path text (.ok written) later) :
    written = path ∧ ∃ place, later.find written = .ok (place, .file text.toByteArray.toList) ∧
      ∀ other bytes, other ≠ place →
        (later.node? other = some (.file bytes) ↔ files.node? other = some (.file bytes)) := by
  cases h with
  | written h hwrite =>
    obtain ⟨place, hnode, rfl, hfind⟩ := writeFile_ok hwrite
    refine ⟨rfl, place, hfind, fun other bytes hother => ?_⟩
    have hne : place ≠ [] := by
      rintro rfl
      exact hnode rfl
    rw [node?_insert _ _ _ hne, if_neg hother]
    exact h.sameFiles other bytes

end FileSystem

namespace Host.Plain

variable {σ : Type} [Host (StateM σ)] (host : Host.Plain σ)

/-- A source that is read is what the file at its path holds. -/
theorem readSource_reads (path : Path) (state : σ) :
    let read := (Build.readSource path : ExceptT Error (StateM σ) String).run state
    host.files read.2 = host.files state ∧
      ∀ source, read.1 = .ok source → (host.files state).textOf path = .ok source := by
  intro read
  have hkeeps := host.readFile_keeps path state
  have hread := @host.readFile_ok path state
  have hrun : read = _ := run_io_bind _ _ state
  rw [hrun]
  generalize (Host.readFile path : StateM σ (Except IoError (List UInt8))) state = result
    at hkeeps hread
  obtain ⟨_ | bytes, after⟩ := result
  · exact ⟨hkeeps, fun source h => by cases h⟩
  · have hbytes := hread rfl
    unfold FileSystem.textOf
    rw [hbytes]
    dsimp only
    cases Utf8.decode bytes with
    | ok source => exact ⟨hkeeps, fun other h => by cases h; rfl⟩
    | error fault => exact ⟨hkeeps, fun other h => by cases h⟩

/-- A computation fails with an error, and changes nothing. -/
def Refuses (action : ExceptT Error (StateM σ) Path) (error : Error) : Prop :=
  ∀ state, (action.run state).1 = .error error ∧
    host.files (action.run state).2 = host.files state

/-- A computation stores a text at a path, or fails to. -/
def Stores (action : ExceptT Error (StateM σ) Path) (output : Path) (text : String) : Prop :=
  ∀ state, (host.files state).Stored output text (action.run state).1
    (host.files (action.run state).2)

variable {host} {α : Type} {output : Path} {text : String}

theorem Refuses.lift {action : StateM σ α} {next : α → ExceptT Error (StateM σ) Path}
    {error : Error} (h : host.Keeps action) (hnext : ∀ a, host.Refuses (next a) error) :
    host.Refuses (ExceptT.lift action >>= next) error := by
  intro state
  rw [run_lift_bind, ← h state]
  exact hnext _ _

theorem Stores.lift {action : StateM σ α} {next : α → ExceptT Error (StateM σ) Path}
    (h : host.Keeps action) (hnext : ∀ a, host.Stores (next a) output text) :
    host.Stores (ExceptT.lift action >>= next) output text := by
  intro state
  rw [run_lift_bind, ← h state]
  exact hnext _ _

theorem Stores.io {action : StateM σ (Except IoError α)}
    {next : α → ExceptT Error (StateM σ) Path} (h : host.Makes action)
    (hnext : ∀ a, host.Stores (next a) output text) :
    host.Stores (Host.io action >>= next) output text := by
  intro state
  have hmade := h state
  rw [run_io_bind]
  generalize action state = result at hmade
  obtain ⟨error | a, after⟩ := result
  · exact .refused hmade
  · exact (hnext a after).behind hmade

theorem writeOutput_stores (source output : Path) (text : String) :
    host.Stores (Build.writeOutput source output text) output text := by
  intro state
  have hok := @host.writeFile_ok output text state
  have herror := @host.writeFile_error output text state
  unfold Build.writeOutput
  rw [run_io_bind]
  generalize (Host.writeFile output text : StateM σ (Except IoError Unit)) state = result
    at hok herror
  obtain ⟨error | _, after⟩ := result
  · refine .refused ?_
    rw [herror rfl]
    exact .refl _
  · dsimp only
    rw [Host.note, run_lift_bind]
    refine .written (.refl _) ((hok rfl).trans ?_)
    exact congrArg Except.ok (host.record_keeps _ after).symm

variable (host)

/-- A computation on a source file stores what comes of its text, or leaves all files alone. Here
`product` is what comes of a text, and `output` is where it goes. -/
structure AllOrNothing (action : ExceptT Error (StateM σ) Path) (path output : Path)
    (product : String → Except Error String) (state : σ) : Prop where
  /-- After an error there are the same files as before. -/
  failed : ∀ error, (action.run state).1 = .error error →
    (host.files state).SameFiles (host.files (action.run state).2)
  /-- If the source cannot be read or nothing comes of it, there are the same directories too. -/
  refused : ∀ error,
    ((Build.readSource path : ExceptT Error (StateM σ) String).run state).1.bind product =
        .error error →
      (action.run state).1 = .error error ∧ host.files (action.run state).2 = host.files state
  /-- Without an error, the output holds what comes of the text that was at the path before, and
  every other file is as it was. -/
  done : ∀ written, (action.run state).1 = .ok written → written = output ∧
    ∃ source text place, (host.files state).textOf path = .ok source ∧ product source = .ok text ∧
      (host.files (action.run state).2).find written =
        .ok (place, .file text.toByteArray.toList) ∧
      ∀ other bytes, other ≠ place →
        ((host.files (action.run state).2).node? other = some (.file bytes) ↔
          (host.files state).node? other = some (.file bytes))

/-- What is written stands at another place than the source. -/
def SparesSource (action : ExceptT Error (StateM σ) Path) (path : Path) (state : σ) : Prop :=
  ∀ written, (action.run state).1 = .ok written →
    ∃ place bytes, (host.files state).find path = .ok (place, .file bytes) ∧
      ∀ other node, (host.files (action.run state).2).find written = .ok (other, node) →
        other ≠ place

variable {host} {action : ExceptT Error (StateM σ) Path} {path : Path}
  {product : String → Except Error String} {state : σ}

theorem AllOrNothing.of_error {error : Error}
    (hproduct :
      ((Build.readSource path : ExceptT Error (StateM σ) String).run state).1.bind product =
        .error error)
    (hresult : (action.run state).1 = .error error)
    (hsame : host.files (action.run state).2 = host.files state) :
    host.AllOrNothing action path output product state where
  failed _ _ := by
    rw [hsame]
    exact (FileSystem.Extends.refl _).sameFiles
  refused other hother := by
    cases hproduct.symm.trans hother
    exact ⟨hresult, hsame⟩
  done written hwritten := by
    rw [hresult] at hwritten
    cases hwritten

theorem AllOrNothing.of_stored {source : String}
    (hread : ((Build.readSource path : ExceptT Error (StateM σ) String).run state).1 = .ok source)
    (hproduct : product source = .ok text)
    (hstored : (host.files state).Stored output text (action.run state).1
      (host.files (action.run state).2)) :
    host.AllOrNothing action path output product state where
  failed error herror := by
    rw [herror] at hstored
    exact hstored.failed
  refused error herror := by
    rw [hread] at herror
    cases hproduct.symm.trans herror
  done written hwritten := by
    rw [hwritten] at hstored
    obtain ⟨rfl, place, hfind, hothers⟩ := hstored.done
    have htext := (host.readSource_reads path state).2 source hread
    exact ⟨rfl, source, text, place, htext, hproduct, hfind, hothers⟩

/-- A computation that reads a source and goes on to store what comes of it is all or nothing. -/
theorem AllOrNothing.of_next {next : String → ExceptT Error (StateM σ) Path}
    (hrefuses : ∀ source error, product source = .error error → host.Refuses (next source) error)
    (hstores : ∀ source text, product source = .ok text → host.Stores (next source) output text)
    (state : σ) :
    host.AllOrNothing (Build.readSource path >>= next) path output product state := by
  have hkeeps := (host.readSource_reads path state).1
  have hrun := run_bind (Build.readSource path) next state
  rcases hread : (Build.readSource path : ExceptT Error (StateM σ) String).run state with
    ⟨error | source, after⟩
  · rw [hread] at hkeeps hrun
    refine .of_error (by rw [hread]; rfl) (by rw [hrun]) ?_
    rw [hrun, hkeeps]
  · rw [hread] at hkeeps hrun
    dsimp only at hkeeps hrun
    cases hproduct : product source with
    | error error =>
      obtain ⟨hresult, hsame⟩ := hrefuses source error hproduct after
      have hnone : ((Build.readSource path : ExceptT Error (StateM σ) String).run state).1.bind
          product = .error error := by
        rw [hread]
        exact hproduct
      exact .of_error hnone (by rw [hrun, hresult]) (by rw [hrun, hsame, hkeeps])
    | ok text =>
      have hstored := hstores source text hproduct after
      rw [hkeeps, ← hrun] at hstored
      exact .of_stored (by rw [hread]) hproduct hstored

theorem compileFile_allOrNothing (config : Config) (path : Path) (state : σ) :
    host.AllOrNothing (Build.compileFile config path) path (config.outputPath path)
      (fun source => (compile source).map (·.code)) state := by
  unfold Build.compileFile
  refine .of_next (fun source error h => .lift (recordAll_keeps _) fun _ => ?_)
    (fun source text h => .lift (recordAll_keeps _) fun _ => ?_) state
  · change ((compileSource source).located source).map _ = _ at h
    cases hcompile : (compileSource source).located source with
    | ok compiled =>
      rw [hcompile] at h
      cases h
    | error reason =>
      rw [hcompile] at h
      cases h
      exact fun state => ⟨rfl, rfl⟩
  · change ((compileSource source).located source).map _ = _ at h
    cases hcompile : (compileSource source).located source with
    | error reason =>
      rw [hcompile] at h
      cases h
    | ok compiled =>
      rw [hcompile] at h
      cases h
      refine .lift (checkName_keeps path compiled.name) fun _ => ?_
      cases config.outputDirectory with
      | none => exact writeOutput_stores _ _ _
      | some directory =>
        exact .io (makeDirectories_makes directory) fun _ => writeOutput_stores _ _ _

theorem tokenizeFile_allOrNothing (path : Path) (state : σ) :
    host.AllOrNothing (Build.tokenizeFile path) path path.document tokensXml state := by
  unfold Build.tokenizeFile
  refine .of_next (fun source error h => ?_) (fun source text h => ?_) state
  · rw [h]
    exact fun state => ⟨rfl, rfl⟩
  · rw [h]
    dsimp only
    unfold Path.document
    cases path.fileStem? with
    | none => exact fun state => .refused (.refl _)
    | some stem => exact writeOutput_stores _ _ _

theorem stem_of_tokenizeFile {written : Path}
    (h : ((Build.tokenizeFile path : ExceptT Error (StateM σ) Path).run state).1 = .ok written) :
    ∃ name, path.fileName? = some name := by
  cases hname : path.fileName? with
  | some name => exact ⟨name, rfl⟩
  | none =>
    have hstem : path.fileStem? = none := by rw [Path.fileStem?, hname]; rfl
    unfold Build.tokenizeFile at h
    rw [run_bind] at h
    split at h
    · rename_i source after hread
      rw [hstem] at h
      cases htokens : tokensXml source <;> rw [htokens] at h <;> cases h
    · cases h

theorem tokenizeFile_sparesSource (path : Path) (state : σ) :
    host.SparesSource (Build.tokenizeFile path) path state := by
  intro written h
  obtain ⟨name, hname⟩ := stem_of_tokenizeFile h
  obtain ⟨rfl, source, text, output, hread, -, hwritten, -⟩ :=
    (host.tokenizeFile_allOrNothing path state).done written h
  obtain ⟨place, bytes, hplace⟩ := FileSystem.textOf_ok hread
  refine ⟨place, bytes, hplace, fun other node hother heq => ?_⟩
  rw [hwritten] at hother
  cases hother
  obtain ⟨_, entry, hentry, hsource⟩ := FileSystem.find_file hplace hname
  obtain ⟨_, entry', hentry', houtput⟩ :=
    FileSystem.find_file hwritten (Path.fileName?_document hname)
  rw [hsource, houtput] at heq
  obtain ⟨-, hsame⟩ := List.append_inj' heq rfl
  cases hsame
  exact Path.splitName_document name (hentry'.symm.trans hentry)

end Host.Plain

/-- On every host of plain files, in every state and for every path, compiling a source file and
writing its token document are all or nothing, and the document is never written over the source. -/
theorem file_builds_all_or_nothing {σ : Type} [Host (StateM σ)] (host : Host.Plain σ)
    (config : Config) (path : Path) (state : σ) :
    host.AllOrNothing (Build.compileFile config path) path (config.outputPath path)
      (fun source => (compile source).map (·.code)) state ∧
    host.AllOrNothing (Build.tokenizeFile path) path path.document tokensXml state ∧
    host.SparesSource (Build.tokenizeFile path) path state :=
  ⟨host.compileFile_allOrNothing config path state, host.tokenizeFile_allOrNothing path state,
    host.tokenizeFile_sparesSource path state⟩

theorem twoClasses_all_or_nothing :
    ((Build.compileFile {} ⟨"d/A.jack"⟩ : ExceptT Error (StateM Session) Path).run
      twoClasses).1 = .ok ⟨"d/A.vm"⟩ ∧
    ((Build.tokenizeFile ⟨"d/A.jack"⟩ : ExceptT Error (StateM Session) Path).run
      twoClasses).1 = .ok ⟨"d/AT.xml"⟩ ∧
    Session.plain.AllOrNothing (Build.compileFile {} ⟨"d/A.jack"⟩) ⟨"d/A.jack"⟩
      (Config.outputPath {} ⟨"d/A.jack"⟩) (fun source => (compile source).map (·.code))
      twoClasses ∧
    Session.plain.AllOrNothing (Build.tokenizeFile ⟨"d/A.jack"⟩) ⟨"d/A.jack"⟩
      (Path.document ⟨"d/A.jack"⟩) tokensXml twoClasses ∧
    Session.plain.SparesSource (Build.tokenizeFile ⟨"d/A.jack"⟩) ⟨"d/A.jack"⟩ twoClasses := by
  refine ⟨?_, ?_, file_builds_all_or_nothing Session.plain {} ⟨"d/A.jack"⟩ twoClasses⟩
  · refine ((compileFile_does {} ⟨"d/A.jack"⟩).result twoClasses).trans ?_
    decide +kernel
  · decide +kernel

end JackCompiler
