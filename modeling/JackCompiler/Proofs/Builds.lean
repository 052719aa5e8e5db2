import JackCompiler.Build
import JackCompiler.Proofs.Directories
/-!
# What a build does to files

A build in a session depends on the files alone, and not on what was recorded before (`Does`). So a
build is a function of a file system, put together like the build itself: a source is read and
compiled, the directory of its output is made, and the output is written.
-/

namespace JackCompiler

/-! ## Computations on sessions -/

/-- A computation gives a result and leaves files that depend on the files before it alone. -/
def Session.Does {α : Type} (action : StateM Session α) (f : FileSystem → α × FileSystem) : Prop :=
  ∀ session, ((action session).1, (action session).2.files) = f session.files

namespace Session.Does

variable {α β : Type}

theorem result {action : StateM Session α} {f : FileSystem → α × FileSystem} (h : Does action f)
    (session : Session) : (action session).1 = (f session.files).1 :=
  congrArg Prod.fst (h session)

theorem files {action : StateM Session α} {f : FileSystem → α × FileSystem} (h : Does action f)
    (session : Session) : (action session).2.files = (f session.files).2 :=
  congrArg Prod.snd (h session)

theorem pure (a : α) : Does (Pure.pure a) fun files => (a, files) := fun _ => rfl

theorem bind {action : StateM Session α} {next : α → StateM Session β}
    {f : FileSystem → α × FileSystem} {g : α → FileSystem → β × FileSystem}
    (h : Does action f) (hnext : ∀ a, Does (next a) (g a)) :
    Does (action >>= next) fun files => g (f files).1 (f files).2 := by
  intro session
  change _ = g (f session.files).1 (f session.files).2
  rw [← h.result, ← h.files]
  exact hnext (action session).1 (action session).2

theorem map {action : StateM Session α} {f : FileSystem → α × FileSystem} (h : Does action f)
    (change : α → β) : Does (change <$> action) fun files => (change (f files).1, (f files).2) :=
  h.bind fun a => pure (change a)

theorem congr {action : StateM Session α} {f g : FileSystem → α × FileSystem} (h : Does action f)
    (hfg : ∀ files, f files = g files) : Does action g :=
  fun session => (h session).trans (hfg session.files)

/-- What is recorded does nothing to files. -/
theorem record (record : Log.Record) :
    Does (Host.record record : StateM Session Unit) fun files => ((), files) := fun _ => rfl

theorem update (change : FileSystem → Except IoError FileSystem) :
    Does (Session.update change) fun files =>
      match change files with
      | .ok files => (.ok (), files)
      | .error error => (.error error, files) := by
  intro session
  unfold Session.update
  dsimp only
  cases change session.files <;> rfl

theorem isKind (kind : EntryKind) (path : Path) :
    Does (Host.isKind kind path : StateM Session Bool) fun files =>
      (decide (files.entryKind path = .ok kind), files) := by
  have hkind : Does (Host.entryKind path : StateM Session (Except IoError EntryKind)) fun files =>
    (files.entryKind path, files) := fun _ => rfl
  refine (hkind.bind (g := fun found files => (decide (found = .ok kind), files)) fun found => ?_)
  cases found with
  | ok found => simpa using pure (decide (found = kind))
  | error error => simpa using pure false

end Session.Does

/-! ## Computations that can fail -/

theorem run_bind {σ α β : Type} (action : ExceptT Error (StateM σ) α)
    (next : α → ExceptT Error (StateM σ) β) (state : σ) :
    (action >>= next).run state =
      match action.run state with
      | (.ok a, after) => (next a).run after
      | (.error error, after) => (.error error, after) := by
  change ExceptT.bindCont next (action.run state).1 (action.run state).2 = _
  rcases action.run state with ⟨_ | _, after⟩ <;> rfl

/-- A computation that can fail gives a result and leaves files that depend on the files alone. -/
abbrev Session.Tries {α : Type} (action : ExceptT Error (StateM Session) α)
    (f : FileSystem → Except Error α × FileSystem) : Prop := Does action.run f

namespace Session.Tries

variable {α β : Type}

theorem pure (a : α) : Tries (Pure.pure a) fun files => (.ok a, files) := fun _ => rfl

theorem throw (error : Error) : Tries (MonadExcept.throw error : ExceptT Error (StateM Session) α)
    fun files => (.error error, files) := fun _ => rfl

theorem lift {action : StateM Session α} {f : FileSystem → α × FileSystem} (h : Does action f) :
    Tries (ExceptT.lift action) fun files => (.ok (f files).1, (f files).2) := h.map Except.ok

theorem io {action : StateM Session (Except IoError α)}
    {f : FileSystem → Except IoError α × FileSystem} (h : Does action f) :
    Tries (Host.io action) fun files => ((f files).1.mapError Error.io, (f files).2) :=
  h.map (Except.mapError Error.io)

theorem bind {action : ExceptT Error (StateM Session) α}
    {next : α → ExceptT Error (StateM Session) β} {f : FileSystem → Except Error α × FileSystem}
    {g : α → FileSystem → Except Error β × FileSystem} (h : Tries action f)
    (hnext : ∀ a, Tries (next a) (g a)) :
    Tries (action >>= next) fun files =>
      match f files with
      | (.ok a, files) => g a files
      | (.error error, files) => (.error error, files) := by
  intro session
  have hfirst := h session
  change (((action >>= next).run session).1, ((action >>= next).run session).2.files) = _
  rw [run_bind]
  dsimp only
  rw [← hfirst]
  rcases action.run session with ⟨error | a, after⟩
  · rfl
  · exact hnext a after

end Session.Tries

open Session

/-! ## Making directories -/

theorem ancestors_eq (path : Path) :
    path.ancestors = path :: (path.parent?.map Path.ancestors).getD [] := by
  rw [Path.ancestors]
  split
  · rename_i h
    rw [h]
    rfl
  · rename_i parent h
    rw [h]
    rfl

theorem makeDirectory_does (path : Path) :
    Does (Host.makeDirectory path : StateM Session (Except IoError Unit)) fun files =>
      match files.makeDirectory path with
      | .ok files => (.ok (), files)
      | .error error => (.error error, files) := Does.update _

namespace FileSystem

/-- What comes of the attempt to make a directory. One that exists already is no error. -/
def excuse (path : Path) (result : Except IoError Unit) (files : FileSystem) :
    Except IoError Unit × FileSystem :=
  match result with
  | .ok () => (.ok (), files)
  | .error error =>
    (if files.entryKind path = .ok .directory then .ok () else .error error, files)

/-- What comes of making a directory once those above it are made. -/
def makeBelow (path : Path) (result : Except IoError Unit) (files : FileSystem) :
    Except IoError Unit × FileSystem :=
  match result with
  | .ok () => files.makeLast path
  | .error error => (.error error, files)

/-- Makes the directories above a path. -/
def makeAbove (path : Path) (files : FileSystem) : Except IoError Unit × FileSystem :=
  match path.parent? with
  | none => (.ok (), files)
  | some parent => files.makeDirectories parent

/-- What comes of the attempt to make a directory when those above it may be missing. -/
def makeMissing (path : Path) (result : Except IoError Unit) (files : FileSystem) :
    Except IoError Unit × FileSystem :=
  match result with
  | .error .notFound => makeBelow path (makeAbove path files).1 (makeAbove path files).2
  | result => excuse path result files

theorem makeMissing_eq {files : FileSystem} {path : Path} (htext : path.text ≠ "") :
    (match files.makeDirectory path with
      | .ok made => makeMissing path (.ok ()) made
      | .error error => makeMissing path (.error error) files) = files.makeDirectories path := by
  cases hmake : files.makeDirectory path with
  | ok made =>
    rw [makeDirectories_last htext (.inl (by rw [hmake]; simp)), makeLast, hmake]
    rfl
  | error error =>
    by_cases hmissing : error = .notFound
    · subst hmissing
      simp only [makeMissing, makeAbove]
      cases hparent : path.parent? with
      | none =>
        rw [makeDirectories_last htext (.inr hparent)]
        rfl
      | some parent =>
        rw [makeDirectories_parent hparent hmake]
        dsimp only
        rcases files.makeDirectories parent with ⟨_ | _, after⟩ <;> rfl
    · rw [makeDirectories_last htext (.inl (by rw [hmake]; simpa using hmissing)), makeLast, hmake]
      cases error with
      | notFound => exact absurd rfl hmissing
      | fileExists | notDirectory | isDirectory | other => rfl

end FileSystem

open FileSystem

theorem excuse_does (path : Path) (error : IoError) :
    Does (do return if ← Host.isKind .directory path then Except.ok () else Except.error error)
      (excuse path (.error error)) := by
  refine ((Does.isKind .directory path).bind fun found =>
    Does.pure (if found then Except.ok () else Except.error error)).congr fun files => ?_
  simp only [decide_eq_true_eq]
  rfl

theorem makeLast_does (path : Path)
    {next : Except IoError Unit → StateM Session (Except IoError Unit)}
    (hok : next (.ok ()) = Pure.pure (.ok ()))
    (herror : ∀ error, next (.error error) = do
      return if ← Host.isKind .directory path then Except.ok () else Except.error error) :
    Does (Host.makeDirectory path >>= next) fun files => files.makeLast path := by
  refine ((makeDirectory_does path).bind (g := excuse path) fun result => ?_).congr fun files => ?_
  · cases result with
    | ok =>
      rw [hok]
      exact Does.pure _
    | error error =>
      rw [herror]
      exact excuse_does path error
  · unfold makeLast
    cases files.makeDirectory path <;> rfl

theorem makeDirectories_does (path : Path) :
    Does (Host.makeDirectories path : StateM Session (Except IoError Unit)) fun files =>
      files.makeDirectories path := by
  induction h : path.text.length using Nat.strong_induction_on generalizing path with
  | _ n ih =>
    subst h
    have habove : Does (Host.makeFirst ((path.parent?.map Path.ancestors).getD []) :
        StateM Session (Except IoError Unit)) (makeAbove path) := by
      cases hparent : path.parent? with
      | none =>
        refine (Does.pure (Except.ok ())).congr fun files => ?_
        rw [makeAbove, hparent]
      | some parent =>
        refine (ih _ (Path.parent?_length_lt hparent) parent rfl).congr fun files => ?_
        rw [makeAbove, hparent]
    unfold Host.makeDirectories
    rw [ancestors_eq, Host.makeFirst]
    split
    · rename_i htext
      refine (Does.pure (Except.ok ())).congr fun files => ?_
      rw [makeDirectories_empty htext]
    · rename_i htext
      refine ((makeDirectory_does path).bind (g := makeMissing path) fun result => ?_).congr
        fun files => ?_
      · cases result with
        | ok => exact Does.pure _
        | error error =>
          cases error with
          | notFound =>
            refine habove.bind (g := makeBelow path) fun result => ?_
            cases result with
            | error error => exact Does.pure _
            | ok => exact makeLast_does path rfl fun _ => rfl
          | fileExists | notDirectory | isDirectory | other => exact excuse_does path _
      · rw [← makeMissing_eq htext]
        cases files.makeDirectory path <;> rfl

/-! ## Sources and outputs -/

namespace FileSystem

/-- The text of a source file. -/
def textOf (files : FileSystem) (source : Path) : Except Error String :=
  match files.readFile source with
  | .error error => .error (.io error)
  | .ok bytes => (Utf8.decode bytes).mapError .utf8

/-- The class of a source file. -/
def classOf (files : FileSystem) (source : Path) : Except Error CompiledClass :=
  (files.textOf source).bind compile

/-- Makes the directory that outputs go to. -/
def prepare (files : FileSystem) (config : Config) : Except IoError Unit × FileSystem :=
  match config.outputDirectory with
  | none => (.ok (), files)
  | some directory => files.makeDirectories directory

/-- Writes the code of a source to its output. -/
def writeCode (files : FileSystem) (config : Config) (source : Path) (compiled : CompiledClass) :
    Except Error Path × FileSystem :=
  match files.writeFile (config.outputPath source) compiled.code.toByteArray.toList with
  | .error error => (.error (.io error), files)
  | .ok files => (.ok (config.outputPath source), files)

/-- Writes the code of a source to its output, for which a directory may have to be made. -/
def emit (files : FileSystem) (config : Config) (source : Path) (compiled : CompiledClass) :
    Except Error Path × FileSystem :=
  match files.prepare config with
  | (.error error, files) => (.error (.io error), files)
  | (.ok (), files) => files.writeCode config source compiled

/-- Compiles one source file. -/
def compileFile (files : FileSystem) (config : Config) (source : Path) :
    Except Error Path × FileSystem :=
  match files.classOf source with
  | .error error => (.error error, files)
  | .ok compiled => files.emit config source compiled

/-- Compiles each of a list of source files, with what comes of each. -/
def compileAll (files : FileSystem) (config : Config) :
    List Path → List (Path × Except Error Path) × FileSystem
  | [] => ([], files)
  | source :: sources =>
    let (outcome, files) := files.compileFile config source
    let (outcomes, files) := files.compileAll config sources
    ((source, outcome) :: outcomes, files)

end FileSystem

theorem readSource_does (source : Path) :
    Tries (Build.readSource source) fun files => (files.textOf source, files) := by
  have hread : Does (Host.readFile source : StateM Session (Except IoError (List UInt8)))
    fun files => (files.readFile source, files) := fun _ => rfl
  refine (Tries.bind (Tries.io hread) (g := fun bytes files =>
    ((Utf8.decode bytes).mapError .utf8, files)) fun bytes => ?_).congr fun files => ?_
  · cases Utf8.decode bytes with
    | ok text => exact Tries.pure text
    | error fault => exact Tries.throw _
  · unfold textOf
    cases files.readFile source <;> rfl

theorem recordAll_does (records : List Log.Record) :
    Does (Build.recordAll records : StateM Session Unit) fun files => ((), files) := by
  induction records with
  | nil => exact Does.pure ()
  | cons record records ih => exact (Does.record record).bind fun _ => ih

theorem checkName_does (source : Path) (name : String) :
    Does (Build.checkName source name : StateM Session Unit) fun files => ((), files) := by
  unfold Build.checkName
  split
  · split
    · exact Does.pure ()
    · exact Does.record _
  · exact Does.pure ()

theorem writeOutput_does (config : Config) (source : Path) (compiled : CompiledClass) :
    Tries (Build.writeOutput source (config.outputPath source) compiled.code) fun files =>
      files.writeCode config source compiled := by
  have hwrite : Does (Host.writeFile (config.outputPath source) compiled.code :
    StateM Session (Except IoError Unit)) _ := Does.update _
  refine (Tries.bind (Tries.io hwrite) fun _ => Tries.bind (Tries.lift (Does.record _)) fun _ =>
    Tries.pure (config.outputPath source)).congr fun files => ?_
  unfold writeCode
  dsimp only
  cases files.writeFile (config.outputPath source) compiled.code.toByteArray.toList <;> rfl

theorem emit_does (config : Config) (source : Path) (compiled : CompiledClass) :
    Tries (do
      match config.outputDirectory with
      | some directory => Host.io (Host.makeDirectories directory)
      | none => pure ()
      Build.writeOutput source (config.outputPath source) compiled.code)
      fun files => files.emit config source compiled := by
  unfold emit prepare
  cases config.outputDirectory with
  | none => exact writeOutput_does config source compiled
  | some directory =>
    refine (Tries.bind (Tries.io (makeDirectories_does directory)) fun _ =>
      writeOutput_does config source compiled).congr fun files => ?_
    dsimp only
    rcases files.makeDirectories directory with ⟨_ | _, files⟩ <;> rfl

theorem compileFile_does (config : Config) (source : Path) :
    Tries (Build.compileFile config source) fun files => files.compileFile config source := by
  refine (Tries.bind (readSource_does source) (g := fun text files =>
    match compile text with
    | .error error => (.error error, files)
    | .ok compiled => files.emit config source compiled) fun text => ?_).congr fun files => ?_
  · refine (Tries.bind (Tries.lift (recordAll_does _)) (g := fun _ files =>
      match compile text with
      | .error error => (.error error, files)
      | .ok compiled => files.emit config source compiled) fun _ => ?_).congr fun files => rfl
    change Tries (match compile text with
      | .error error => _
      | .ok compiled => _) _
    cases compile text with
    | error error => exact Tries.throw error
    | ok compiled =>
      exact (Tries.bind (Tries.lift (checkName_does source compiled.name)) fun _ =>
        emit_does config source compiled).congr fun files => rfl
  · unfold FileSystem.compileFile classOf
    cases files.textOf source <;> rfl

/-- The report of what came of each source. -/
def Report.ofOutcomes (outcomes : List (Path × Except Error Path)) : Report where
  compiled := outcomes.filterMap (·.2.toOption)
  failed := outcomes.filterMap fun (source, outcome) =>
    match outcome with
    | .ok _ => none
    | .error error => some (source, error)

theorem compileAll_does (config : Config) (sources : List Path) :
    Does (Build.compileAll config sources : StateM Session Report) fun files =>
      (Report.ofOutcomes (files.compileAll config sources).1,
        (files.compileAll config sources).2) := by
  induction sources with
  | nil => exact Does.pure ({} : Report)
  | cons source sources ih =>
    unfold Build.compileAll
    refine (Does.bind (compileFile_does config source) (g := fun outcome files =>
      (Report.ofOutcomes ((source, outcome) :: (files.compileAll config sources).1),
        (files.compileAll config sources).2)) fun outcome => ?_).congr fun files => rfl
    cases outcome with
    | ok output => exact ih.bind fun report => Does.pure _
    | error error =>
      exact ((Does.record _).bind fun _ => ih.bind fun report => Does.pure _).congr fun files => rfl

/-! ## Finding sources -/

namespace FileSystem

/-- The source files among the entries of a directory, in order. -/
def sourcesAmong (files : FileSystem) (config : Config) (path : Path) (names : List String) :
    List Path :=
  ((names.mergeSort (· ≤ ·)).map path.child).filter fun source =>
    decide (files.entryKind source = .ok .file) && config.isSource source

/-- The source files of a directory. -/
def sourcesIn (files : FileSystem) (config : Config) (path : Path) : Except Error (List Path) :=
  match files.entryNames path with
  | .error error => .error (.io error)
  | .ok names =>
    let sources := files.sourcesAmong config path (names.map (·.text))
    if sources.isEmpty then .error (.noSources path) else .ok sources

/-- The source files a path stands for. -/
def sourcesOf (files : FileSystem) (config : Config) (path : Path) : Except Error (List Path) :=
  match files.entryKind path with
  | .error error => .error (.io error)
  | .ok .file => if config.isSource path then .ok [path] else .error (.invalidSource path)
  | .ok .directory => files.sourcesIn config path

end FileSystem

theorem sourcesAmong_does (config : Config) (paths : List Path) :
    Does (Build.sourcesAmong config paths : StateM Session (List Path)) fun files =>
      (paths.filter fun path =>
        decide (files.entryKind path = .ok .file) && config.isSource path, files) := by
  induction paths with
  | nil => exact Does.pure []
  | cons path paths ih =>
    unfold Build.sourcesAmong
    refine ((Does.isKind .file path).bind fun isFile => ih.bind fun sources =>
      Does.pure (if isFile && config.isSource path then path :: sources else sources)).congr
      fun files => ?_
    dsimp only
    rw [List.filter_cons]

theorem sourcesIn_does (config : Config) (path : Path) :
    Tries (do
      let names ← Host.io (Host.entryNames path)
      let sources ← ExceptT.lift <|
        Build.sourcesAmong config ((names.mergeSort (· ≤ ·)).map path.child)
      if sources.isEmpty then throw (.noSources path)
      return sources) fun files => (files.sourcesIn config path, files) := by
  have hnames : Does (Host.entryNames path : StateM Session (Except IoError (List String)))
    fun files => ((files.entryNames path).map fun names => names.map (·.text), files) := fun _ => rfl
  refine (Tries.bind (Tries.io hnames) fun names =>
    Tries.bind (Tries.lift (sourcesAmong_does config _)) (g := fun sources files =>
      (if sources.isEmpty then .error (.noSources path) else .ok sources, files))
      fun sources => ?_).congr fun files => ?_
  · cases sources with
    | nil => exact Tries.throw _
    | cons source sources => exact Tries.pure _
  · unfold sourcesIn
    cases files.entryNames path <;> rfl

theorem findSources_does (config : Config) (path : Path) :
    Tries (Build.findSources config path) fun files => (files.sourcesOf config path, files) := by
  have hkind : Does (Host.entryKind path : StateM Session (Except IoError EntryKind))
    fun files => (files.entryKind path, files) := fun _ => rfl
  refine (Tries.bind (Tries.io hkind) (g := fun kind files =>
    (if kind = .directory then files.sourcesIn config path
      else if config.isSource path then .ok [path] else .error (.invalidSource path), files))
    fun kind => ?_).congr fun files => ?_
  · cases kind with
    | file =>
      dsimp only
      split
      · exact Tries.pure [path]
      · exact Tries.throw _
    | directory => exact sourcesIn_does config path
  · unfold sourcesOf
    rcases files.entryKind path with _ | _ | _ <;> rfl

/-- A build compiles each of its sources. -/
theorem compilePath_does (config : Config) (path : Path) :
    Tries (Build.compilePath config path) fun files =>
      match files.sourcesOf config path with
      | .error error => (.error error, files)
      | .ok sources =>
        (.ok (Report.ofOutcomes (files.compileAll config sources).1),
          (files.compileAll config sources).2) :=
  (Tries.bind (findSources_does config path) fun sources =>
    Tries.bind (Tries.lift (Does.record _)) fun _ =>
      Tries.lift (compileAll_does config sources)).congr fun files => by
    dsimp only
    cases files.sourcesOf config path <;> rfl

end JackCompiler
