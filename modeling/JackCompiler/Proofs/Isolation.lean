import JackCompiler.Proofs.Outputs
/-!
# Directories are built file by file

A build of a directory reports each of its sources once, in the order of their names, and what comes
of one is what comes of it when it is compiled alone (`compilePath_isolates`). Sources are not
changed on the way and each output holds the code of its own source, as no two files are written to
one place (`Stage`).

The one thing a source shares with those before it is the directory that outputs go to. If it cannot
be made, part of the directories above it may have been, and then a second attempt can fail in
another way (`Build.Blocked`).
-/

namespace JackCompiler

namespace FileSystem

variable {before ready now later : FileSystem} {config : Config} {directory : Path} {place : Place}
  {name : EntryName} {written : List EntryName} {compiled : CompiledClass}

/-! ## The directory of the outputs -/

theorem prepare_extends {result : Except IoError Unit} (h : before.prepare config = (result, now)) :
    before.Extends now := by
  unfold prepare at h
  cases hdirectory : config.outputDirectory with
  | none =>
    rw [hdirectory] at h
    cases h
    exact .refl before
  | some directory =>
    rw [hdirectory] at h
    have hmade : before.makeDirectories directory = (result, now) := h
    have hextends := makeDirectories_extends before directory
    rwa [hmade] at hextends

theorem prepare_again (h : before.prepare config = (.ok (), ready)) (hgrows : ready.Grows now) :
    now.prepare config = (.ok (), now) := by
  unfold prepare at h ⊢
  cases hdirectory : config.outputDirectory with
  | none => rfl
  | some directory =>
    rw [hdirectory] at h
    exact makeDirectories_again h hgrows

theorem prepare_refused {error : IoError} (h : before.prepare config = (.error error, now)) :
    ∃ error', now.prepare config = (.error error', now) ∧
      (error' = error ∨ error = .fileExists ∧ error' = .notDirectory) := by
  unfold prepare at h ⊢
  cases hdirectory : config.outputDirectory with
  | none =>
    rw [hdirectory] at h
    cases h
  | some directory =>
    rw [hdirectory] at h
    exact makeDirectories_refused h

/-! ## Between two sources -/

/-- What has been written once the directory of the outputs was there: the code of some sources of a
directory, each at the place of its output. -/
structure Written (config : Config) (directory : Path) (before ready now : FileSystem)
    (written : List EntryName) : Prop where
  grows : ready.Grows now
  target : now.directoryOf (config.target directory) = ready.directoryOf (config.target directory)
  holds : ∀ name ∈ written, name.IsSource ∧ ∃ place compiled,
    ready.outputPlace? config directory name = some place ∧
      before.classOf (directory.child name.text) = .ok compiled ∧
      now.node? place = some (.file (bytesOf compiled))
  others : ∀ place, now.node? place = ready.node? place ∨
    ∃ name ∈ written, ready.outputPlace? config directory name = some place

/-- How far a build has come: no source has compiled yet, the directory of the outputs cannot be
made, or it was made and outputs have been written. -/
inductive Stage (config : Config) (directory : Path) (before : FileSystem) :
    List EntryName → FileSystem → Prop
  | untouched : Stage config directory before [] before
  | refused {error : IoError} {now : FileSystem} (h : before.prepare config = (.error error, now)) :
    Stage config directory before [] now
  | written {ready now : FileSystem} {written : List EntryName}
    (h : before.prepare config = (.ok (), ready))
    (hwritten : Written config directory before ready now written) :
    Stage config directory before written now

theorem Written.outputPlace? (h : Written config directory before ready now written)
    (name : EntryName) :
    now.outputPlace? config directory name = ready.outputPlace? config directory name := by
  unfold FileSystem.outputPlace?
  rw [h.target]

theorem Written.nil (config : Config) (directory : Path) (before ready : FileSystem) :
    Written config directory before ready ready [] :=
  ⟨.refl ready, rfl, fun _ h => (List.not_mem_nil h).elim, fun _ => .inl rfl⟩

/-- Nothing has been written to the place of an output before its source was compiled. -/
theorem Written.fresh (h : Written config directory before ready now written)
    (hname : name.IsSource) (hfresh : name ∉ written)
    (hplace : ready.outputPlace? config directory name = some place) :
    now.node? place = ready.node? place := by
  rcases h.others place with hsame | ⟨other, hother, hplace'⟩
  · exact hsame
  · obtain rfl := outputPlace?_injective hname (h.holds other hother).1 hplace hplace'
    exact absurd hother hfresh

/-- Writing one more output keeps what was written. -/
theorem Written.insert (h : Written config directory before ready now written)
    (hname : name.IsSource) (hfresh : name ∉ written)
    (hplace : ready.outputPlace? config directory name = some place)
    (hnode : now.node? place ≠ some .directory)
    (hclass : before.classOf (directory.child name.text) = .ok compiled) :
    Written config directory before ready (now.insert place (.file (bytesOf compiled)))
      (name :: written) := by
  have hne : place ≠ [] := by
    rintro rfl
    exact hnode rfl
  have hgrows : now.Grows (now.insert place (.file (bytesOf compiled))) := grows_insert_file hnode
  refine ⟨h.grows.trans hgrows, ?target, ?holds, ?others⟩
  case target =>
    obtain ⟨target, -, htarget, -⟩ := outputPlace?_eq_some.mp hplace
    rw [htarget]
    exact hgrows.directoryOf_ok (h.target.trans htarget)
  case holds =>
    intro other hother
    rcases List.mem_cons.mp hother with rfl | hother
    · exact ⟨hname, place, compiled, hplace, hclass, by rw [node?_insert _ _ _ hne, if_pos rfl]⟩
    · obtain ⟨hsource, place', compiled', hplace', hclass', hnode'⟩ := h.holds other hother
      refine ⟨hsource, place', compiled', hplace', hclass', ?_⟩
      rw [node?_insert _ _ _ hne, if_neg, hnode']
      rintro rfl
      obtain rfl := outputPlace?_injective hname hsource hplace hplace'
      exact hfresh hother
  case others =>
    intro place'
    rw [node?_insert _ _ _ hne]
    split
    · rename_i hsame
      exact .inr ⟨name, List.mem_cons_self, hsame ▸ hplace⟩
    · rcases h.others place' with hsame | ⟨other, hother, hplace'⟩
      · exact .inl hsame
      · exact .inr ⟨other, List.mem_cons_of_mem _ hother, hplace'⟩

theorem Stage.grows (h : Stage config directory before written now) : before.Grows now := by
  cases h with
  | untouched => exact .refl before
  | refused h => exact (prepare_extends h).grows
  | written h hwritten => exact (prepare_extends h).grows.trans hwritten.grows

/-- A source stays as it was. -/
theorem Stage.source_kept {bytes : List UInt8} (h : Stage config directory before written now)
    (hname : name.IsSource) (hfile : before.node? (place ++ [name]) = some (.file bytes)) :
    now.node? (place ++ [name]) = some (.file bytes) := by
  cases h with
  | untouched => exact hfile
  | refused h => exact (prepare_extends h).kept hfile
  | written h hwritten =>
    rcases hwritten.others (place ++ [name]) with hsame | ⟨other, -, hplace⟩
    · exact hsame.trans ((prepare_extends h).kept hfile)
    · exact absurd hname (outputPlace?_not_source hplace)

theorem Stage.classOf_eq {bytes : List UInt8} (h : Stage config directory before written now)
    (hdirectory : before.directoryOf directory = .ok place) (hname : name.IsSource)
    (hfile : before.node? (place ++ [name]) = some (.file bytes)) :
    now.classOf (directory.child name.text) = before.classOf (directory.child name.text) := by
  have hread : now.readFile (directory.child name.text) =
      before.readFile (directory.child name.text) := by
    rw [readFile, readFile, find_child hdirectory, find_child (h.grows.directoryOf_ok hdirectory),
      hfile, h.source_kept hname hfile]
  rw [classOf, classOf, textOf, textOf, hread]

/-- The output of a source that has been written holds its code. -/
theorem Stage.output (h : Stage config directory before written now)
    (hextension : config.outputExtension = "vm") (hname : name ∈ written) :
    ∃ place compiled, before.classOf (directory.child name.text) = .ok compiled ∧
      now.outputPlace? config directory name = some place ∧
      now.find (config.outputPath (directory.child name.text)) =
        .ok (place, .file (bytesOf compiled)) := by
  cases h with
  | untouched => exact absurd hname List.not_mem_nil
  | refused h => exact absurd hname List.not_mem_nil
  | written h hwritten =>
    obtain ⟨hsource, place, compiled, hplace, hclass, hnode⟩ := hwritten.holds name hname
    rw [← hwritten.outputPlace?] at hplace
    exact ⟨place, compiled, hclass, hplace, find_output hextension hsource hplace hnode⟩

/-- A file that is not as it was is an output. -/
theorem Stage.changed {bytes : List UInt8} (h : Stage config directory before written now)
    (hextension : config.outputExtension = "vm") (hfile : now.node? place = some (.file bytes)) :
    before.node? place = some (.file bytes) ∨
      ∃ name ∈ written, now.find (config.outputPath (directory.child name.text)) =
        .ok (place, .file bytes) := by
  cases h with
  | untouched => exact .inl hfile
  | refused h => exact .inl ((prepare_extends h).file_kept hfile)
  | written h hwritten =>
    rcases hwritten.others place with hsame | ⟨name, hname, hplace⟩
    · exact .inl ((prepare_extends h).file_kept (hsame.symm.trans hfile))
    · rw [← hwritten.outputPlace?] at hplace
      exact .inr ⟨name, hname, find_output hextension (hwritten.holds name hname).1 hplace hfile⟩

/-! ## One source -/

/-- Where the directory of the outputs could not be made because of a file, a second attempt stops
at that file. -/
def Blocked (files : FileSystem) (config : Config) : Prop :=
  ∃ after, files.prepare config = (.error .fileExists, after) ∧
    (after.prepare config).1 = .error .notDirectory

/-- What came of a source in a build is what comes of it alone, unless the directory of the outputs
is blocked. -/
def Agrees (files : FileSystem) (config : Config) (source : Path) (outcome : Except Error Path) :
    Prop :=
  outcome = (files.compileFile config source).1 ∨
    files.Blocked config ∧ (files.compileFile config source).1 = .error (.io .fileExists) ∧
      outcome = .error (.io .notDirectory)

/-- What has been written after some outcomes, when something was written before them: the output of
each source that compiled, and no other. -/
structure Noted (config : Config) (directory : Path) (outcomes : List (Path × Except Error Path))
    (written written' : List EntryName) : Prop where
  kept : ∀ name ∈ written, name ∈ written'
  outputs : ∀ source output, (source, .ok output) ∈ outcomes → ∃ name ∈ written',
    source = directory.child name.text ∧ output = config.outputPath source
  only : ∀ name ∈ written', name ∈ written ∨
    (directory.child name.text, .ok (config.outputPath (directory.child name.text))) ∈ outcomes

theorem Noted.nil : Noted config directory [] written written :=
  ⟨fun _ h => h, fun _ _ h => absurd h List.not_mem_nil, fun _ h => .inl h⟩

theorem Noted.failed {source : Path} {error : Error} :
    Noted config directory [(source, .error error)] written written := by
  refine ⟨fun _ h => h, fun source output h => ?_, fun _ h => .inl h⟩
  cases List.mem_singleton.mp h

theorem Noted.wrote (config : Config) (directory : Path) (name : EntryName)
    (written : List EntryName) :
    Noted config directory
      [(directory.child name.text, .ok (config.outputPath (directory.child name.text)))]
      written (name :: written) := by
  refine ⟨fun _ h => List.mem_cons_of_mem _ h, fun source output h => ?_, fun other h => ?_⟩
  · cases List.mem_singleton.mp h
    exact ⟨name, List.mem_cons_self, rfl, rfl⟩
  · rcases List.mem_cons.mp h with rfl | h
    · exact .inr (List.mem_singleton_self _)
    · exact .inl h

theorem Noted.append {outcomes others : List (Path × Except Error Path)}
    {written' written'' : List EntryName} (h : Noted config directory outcomes written written')
    (h' : Noted config directory others written' written'') :
    Noted config directory (outcomes ++ others) written written'' := by
  refine ⟨fun name hname => h'.kept name (h.kept name hname), fun source output hmem => ?_,
    fun name hname => ?_⟩
  · rcases List.mem_append.mp hmem with hmem | hmem
    · obtain ⟨name, hname, hsource⟩ := h.outputs source output hmem
      exact ⟨name, h'.kept name hname, hsource⟩
    · exact h'.outputs source output hmem
  · rcases h'.only name hname with hname | hmem
    · exact (h.only name hname).imp_right (List.mem_append_left _)
    · exact .inr (List.mem_append_right _ hmem)

/-- A source that compiled is written to the directory of the outputs as if it were alone there. -/
theorem Written.writeCode {outcome : Except Error Path} {source : Path}
    (hprepare : before.prepare config = (.ok (), ready))
    (h : Written config directory before ready now written)
    (hextension : config.outputExtension = "vm")
    (hdirectory : before.directoryOf directory = .ok place) (hname : name.IsSource)
    (hfresh : name ∉ written) (hsource : source = directory.child name.text)
    (hclass : before.classOf source = .ok compiled)
    (hwrite : now.writeCode config source compiled = (outcome, later)) :
    outcome = (ready.writeCode config source compiled).1 ∧
      ∃ written', Stage config directory before written' later ∧
        Noted config directory [(source, outcome)] written written' := by
  subst hsource
  have hready : ready.directoryOf directory = .ok place :=
    (prepare_extends hprepare).grows.directoryOf_ok hdirectory
  have hnow := h.grows.directoryOf_ok hready
  constructor
  · rw [← writeCode_result hextension hname hready hnow h.target fun _ => h.fresh hname hfresh,
      hwrite]
  · cases outcome with
    | error error =>
      rw [writeCode_error hwrite]
      exact ⟨written, .written hprepare h, .failed⟩
    | ok output =>
      obtain ⟨rfl, place, hplace, hnode, rfl⟩ := writeCode_ok hextension hname hnow hwrite
      rw [h.outputPlace?] at hplace
      exact ⟨name :: written, .written hprepare (h.insert hname hfresh hplace hnode hclass),
        .wrote config directory name written⟩

theorem Stage.step {outcome : Except Error Path} {source : Path} {bytes : List UInt8}
    (hstage : Stage config directory before written now)
    (hextension : config.outputExtension = "vm")
    (hdirectory : before.directoryOf directory = .ok place) (hname : name.IsSource)
    (hfile : before.node? (place ++ [name]) = some (.file bytes))
    (hfresh : name ∉ written) (hsource : source = directory.child name.text)
    (h : now.compileFile config source = (outcome, later)) :
    before.Agrees config source outcome ∧
      ∃ written', Stage config directory before written' later ∧
        Noted config directory [(source, outcome)] written written' := by
  have hsame : now.classOf source = before.classOf source := by
    rw [hsource]
    exact hstage.classOf_eq hdirectory hname hfile
  unfold Agrees
  unfold compileFile at h ⊢
  rw [hsame] at h
  cases hclass : before.classOf source with
  | error error =>
    rw [hclass] at h
    cases h
    exact ⟨.inl rfl, written, hstage, .failed⟩
  | ok compiled =>
    rw [hclass] at h
    dsimp only at h ⊢
    unfold emit at h ⊢
    cases hstage with
    | untouched =>
      rcases hprepare : before.prepare config with ⟨error | _, ready⟩
      · rw [hprepare] at h
        cases h
        exact ⟨.inl rfl, [], .refused hprepare, .failed⟩
      · rw [hprepare] at h
        obtain ⟨halone, hlater⟩ := Written.writeCode hprepare (.nil config directory before ready)
          hextension hdirectory hname hfresh hsource hclass h
        exact ⟨.inl halone, hlater⟩
    | refused hrefused =>
      obtain ⟨error', hagain, hsame⟩ := prepare_refused hrefused
      rw [hagain] at h
      cases h
      rw [hrefused]
      refine ⟨?_, [], .refused hrefused, .failed⟩
      rcases hsame with rfl | ⟨rfl, rfl⟩
      · exact .inl rfl
      · exact .inr ⟨⟨now, hrefused, by rw [hagain]⟩, rfl, rfl⟩
    | written hprepare hwritten =>
      rw [prepare_again hprepare hwritten.grows] at h
      rw [hprepare]
      obtain ⟨halone, hlater⟩ := Written.writeCode hprepare hwritten hextension hdirectory hname
        hfresh hsource hclass h
      exact ⟨.inl halone, hlater⟩

/-! ## All sources -/

theorem Stage.run {names : List EntryName} {outcomes : List (Path × Except Error Path)}
    (hstage : Stage config directory before written now)
    (hextension : config.outputExtension = "vm")
    (hdirectory : before.directoryOf directory = .ok place)
    (hsources : ∀ name ∈ names, name.IsSource ∧
      ∃ bytes, before.node? (place ++ [name]) = some (.file bytes))
    (hnodup : names.Nodup) (hfresh : ∀ name ∈ names, name ∉ written)
    (h : now.compileAll config (names.map (directory.child ·.text)) = (outcomes, later)) :
    outcomes.map Prod.fst = names.map (directory.child ·.text) ∧
      (∀ source outcome, (source, outcome) ∈ outcomes → before.Agrees config source outcome) ∧
      ∃ written', Stage config directory before written' later ∧
        Noted config directory outcomes written written' := by
  -- on the sources to come; `written` are those of before, which no later one writes over
  induction names generalizing now written outcomes with
  | nil =>
    cases h
    exact ⟨rfl, fun _ _ h => absurd h List.not_mem_nil, written, hstage, .nil⟩
  | cons name names ih =>
    obtain ⟨hname, bytes, hfile⟩ := hsources name List.mem_cons_self
    rw [List.nodup_cons] at hnodup
    rcases hfirst : now.compileFile config (directory.child name.text) with ⟨outcome, next⟩
    rcases hothers : next.compileAll config (names.map (directory.child ·.text)) with ⟨others, last⟩
    rw [List.map_cons, compileAll, hfirst] at h
    dsimp only at h
    rw [hothers] at h
    cases h
    obtain ⟨hagrees, written', hnext, hnoted⟩ := hstage.step hextension hdirectory hname hfile
      (hfresh name List.mem_cons_self) rfl hfirst
    have hfresh' : ∀ other ∈ names, other ∉ written' := by
      intro other hother hmem
      rcases hnoted.only other hmem with hmem | hmem
      · exact hfresh other (List.mem_cons_of_mem _ hother) hmem
      · have hsame := congrArg Prod.fst (List.mem_singleton.mp hmem)
        rw [EntryName.child_injective hsame] at hother
        exact hnodup.1 hother
    obtain ⟨hmap, hall, written'', hlater, hnoted'⟩ := ih hnext
      (fun other hother => hsources other (List.mem_cons_of_mem _ hother)) hnodup.2 hfresh' hothers
    refine ⟨congrArg _ hmap, fun source result hmem => ?_, written'', hlater,
      hnoted.append hnoted'⟩
    rcases List.mem_cons.mp hmem with heq | hmem
    · cases heq
      exact hagrees
    · exact hall source result hmem

/-! ## The outputs of a run -/

/-- A source that is compiled alone has its code in its output. -/
theorem readFile_alone {bytes : List UInt8} (hextension : config.outputExtension = "vm")
    (hdirectory : before.directoryOf directory = .ok place) (hname : name.IsSource)
    (hfile : before.node? (place ++ [name]) = some (.file bytes))
    (hclass : before.classOf (directory.child name.text) = .ok compiled) {output : Path}
    (h : (before.compileFile config (directory.child name.text)).1 = .ok output) :
    (before.compileFile config (directory.child name.text)).2.readFile output =
      .ok (bytesOf compiled) := by
  have hstage : Stage config directory before [] before := .untouched
  obtain ⟨-, written, hlater, hnoted⟩ := hstage.step hextension hdirectory hname hfile
    List.not_mem_nil rfl (Prod.ext h rfl)
  obtain ⟨other, hother, hsame, rfl⟩ := hnoted.outputs _ _ List.mem_cons_self
  obtain rfl := EntryName.child_injective hsame
  obtain ⟨place, compiled', hclass', -, hfind⟩ := hlater.output hextension hother
  rw [hclass] at hclass'
  cases hclass'
  rw [readFile, hfind]

/-- The output of a source holds its code, in a build and when it is compiled alone. -/
theorem output_holds {names : List EntryName} {outcomes : List (Path × Except Error Path)}
    {source output : Path} (hextension : config.outputExtension = "vm")
    (hdirectory : before.directoryOf directory = .ok place)
    (hsources : ∀ name ∈ names, name.IsSource ∧
      ∃ bytes, before.node? (place ++ [name]) = some (.file bytes))
    (hmap : outcomes.map Prod.fst = names.map (directory.child ·.text))
    (hagrees : ∀ source outcome, (source, outcome) ∈ outcomes → before.Agrees config source outcome)
    (hstage : Stage config directory before written now)
    (hnoted : Noted config directory outcomes [] written) (hmem : (source, .ok output) ∈ outcomes) :
    output = config.outputPath source ∧
      ∃ compiled, before.classOf source = .ok compiled ∧
        (before.compileFile config source).2.readFile output = .ok (bytesOf compiled) ∧
        now.readFile output = .ok (bytesOf compiled) := by
  obtain ⟨name, hwritten, rfl, rfl⟩ := hnoted.outputs source output hmem
  obtain ⟨target, compiled, hclass, -, hfind⟩ := hstage.output hextension hwritten
  have hlisted : directory.child name.text ∈ outcomes.map Prod.fst := List.mem_map_of_mem hmem
  rw [hmap, List.mem_map] at hlisted
  obtain ⟨other, hother, hsame⟩ := hlisted
  obtain rfl := EntryName.child_injective hsame
  obtain ⟨hname, bytes, hfile⟩ := hsources other hother
  have halone : (before.compileFile config (directory.child other.text)).1 =
      .ok (config.outputPath (directory.child other.text)) := by
    rcases hagrees _ _ hmem with halone | ⟨-, -, hfailed⟩
    · exact halone.symm
    · cases hfailed
  refine ⟨rfl, compiled, hclass, ?_, by rw [readFile, hfind]⟩
  exact readFile_alone hextension hdirectory hname hfile hclass halone

/-- Two sources do not have one output. -/
theorem Stage.outputPath_injective {other : EntryName}
    (h : Stage config directory before written now) (hextension : config.outputExtension = "vm")
    (hname : name ∈ written) (hother : other ∈ written)
    (hsame : config.outputPath (directory.child name.text) =
      config.outputPath (directory.child other.text)) : name = other := by
  obtain ⟨place, compiled, -, hplace, hfind⟩ := h.output hextension hname
  obtain ⟨place', compiled', -, hplace', hfind'⟩ := h.output hextension hother
  rw [hsame, hfind', Except.ok.injEq, Prod.mk.injEq] at hfind
  obtain ⟨rfl, -⟩ := hfind
  cases h with
  | untouched => exact absurd hname List.not_mem_nil
  | refused h => exact absurd hname List.not_mem_nil
  | written h hwritten =>
    exact outputPlace?_injective (hwritten.holds name hname).1 (hwritten.holds other hother).1
      hplace hplace'

/-- The outputs of a build are as many as the sources that compiled. -/
theorem Stage.compiled_nodup {outcomes : List (Path × Except Error Path)}
    (h : Stage config directory before written now)
    (hextension : config.outputExtension = "vm")
    (hnoted : Noted config directory outcomes [] written) (hnodup : (outcomes.map Prod.fst).Nodup) :
    (Report.ofOutcomes outcomes).compiled.Nodup := by
  rw [List.Nodup, List.pairwise_map] at hnodup
  unfold Report.ofOutcomes
  rw [List.Nodup, List.pairwise_filterMap]
  refine hnodup.imp_of_mem ?_
  intro (source, outcome) (source', outcome') hfirst hsecond hne output houtput output' houtput'
  cases outcome with
  | error error => cases houtput
  | ok path =>
    cases outcome' with
    | error error => cases houtput'
    | ok path' =>
      cases houtput
      cases houtput'
      obtain ⟨name, hname, rfl, rfl⟩ := hnoted.outputs _ _ hfirst
      obtain ⟨other, hother, rfl, rfl⟩ := hnoted.outputs _ _ hsecond
      intro hsame
      obtain rfl := h.outputPath_injective hextension hname hother hsame
      exact hne rfl

end FileSystem

/-! ## Builds of directories -/

/-- Compiles one source file in a session. -/
abbrev Session.compileFile (session : Session) (config : Config) (source : Path) :
    Except Error Path × Session :=
  (Build.compileFile config source : ExceptT Error (StateM Session) Path).run session

/-- Makes directories in a session. -/
abbrev Session.makeDirectories (session : Session) (path : Path) : Except IoError Unit × Session :=
  (Host.makeDirectories path : StateM Session (Except IoError Unit)).run session

namespace Build

/-- Making the directory that outputs go to fails because of a file that is there already, and a
second attempt stops at a file where it needs a directory. -/
def Blocked (config : Config) (session : Session) : Prop :=
  ∃ directory, config.outputDirectory = some directory ∧
    ∃ after, session.makeDirectories directory = (.error .fileExists, after) ∧
      (after.makeDirectories directory).1 = .error .notDirectory

theorem blocked_of_files {config : Config} {session : Session} (h : session.files.Blocked config) :
    Blocked config session := by
  obtain ⟨files, hfirst, hsecond⟩ := h
  unfold FileSystem.prepare at hfirst hsecond
  cases hdirectory : config.outputDirectory with
  | none =>
    rw [hdirectory] at hfirst
    cases hfirst
  | some directory =>
    rw [hdirectory] at hfirst hsecond
    have hdoes := makeDirectories_does directory
    refine ⟨directory, hdirectory, (session.makeDirectories directory).2, Prod.ext ?_ rfl, ?_⟩
    · exact (hdoes.result session).trans (congrArg Prod.fst hfirst)
    · refine (hdoes.result _).trans ?_
      have hafter := (hdoes.files session).trans (congrArg Prod.snd hfirst)
      exact (congrArg (fun files => (files.makeDirectories directory).1) hafter).trans hsecond

/-- The files of a directory are built one by one: `outcomes` has each source of the directory at
`path` with its output or its error. -/
structure Isolates (config : Config) (path : Path) (place : Place) (before : Session)
    (outcomes : List (Path × Except Error Path)) (after : Session) : Prop where
  /-- Each regular file with the extension of sources once, in order. -/
  sources : ∃ names : List EntryName, outcomes.map Prod.fst = names.map (path.child ·.text) ∧
    (names.Pairwise fun first second => first.text < second.text) ∧
    ∀ name, name ∈ names ↔
      (∃ bytes, before.files.node? (place ++ [name]) = some (.file bytes)) ∧
        (path.child name.text).extension? = some config.sourceExtension
  /-- What comes of a source alone comes of it here, unless its output has no directory. -/
  alone : ∀ source outcome, (source, outcome) ∈ outcomes →
    outcome = (before.compileFile config source).1 ∨
      Blocked config before ∧
        (before.compileFile config source).1 = .error (.io .fileExists) ∧
        outcome = .error (.io .notDirectory)
  /-- An output holds the code of its source, as it does when that is compiled alone. -/
  outputs : ∀ source output, (source, .ok output) ∈ outcomes →
    output = config.outputPath source ∧
      ∃ compiled, before.files.classOf source = .ok compiled ∧
        (before.compileFile config source).2.files.readFile output =
          .ok (FileSystem.bytesOf compiled) ∧
        after.files.readFile output = .ok (FileSystem.bytesOf compiled)
  distinct : (Report.ofOutcomes outcomes).compiled.Nodup
  /-- No file is gone. -/
  kept : ∀ place bytes, before.files.node? place = some (.file bytes) →
    ∃ bytes', after.files.node? place = some (.file bytes')
  /-- A file that is not as it was is an output. -/
  changed : ∀ place bytes, after.files.node? place = some (.file bytes) →
    before.files.node? place = some (.file bytes) ∨
      ∃ output ∈ (Report.ofOutcomes outcomes).compiled,
        after.files.find output = .ok (place, .file bytes)

end Build

theorem Report.mem_compiled {outcomes : List (Path × Except Error Path)} {output : Path} :
    output ∈ (Report.ofOutcomes outcomes).compiled ↔ ∃ source, (source, .ok output) ∈ outcomes := by
  simp only [Report.ofOutcomes, List.mem_filterMap, Prod.exists]
  constructor
  · rintro ⟨source, outcome, hmem, houtput⟩
    cases outcome with
    | ok path =>
      cases houtput
      exact ⟨source, hmem⟩
    | error error => cases houtput
  · rintro ⟨source, hmem⟩
    exact ⟨source, _, hmem, rfl⟩

/-- A build of a directory whose sources are found builds them one by one. -/
theorem Build.compilePath_isolates (out : Option Path) {path : Path} {session : Session}
    {place : Place} {sources : List Path}
    (hdirectory : session.files.find path = .ok (place, .directory))
    (hsources : ((findSources { outputDirectory := out } path :
      ExceptT Error (StateM Session) (List Path)).run session).1 = .ok sources) :
    ∃ outcomes after,
      (compilePath { outputDirectory := out } path :
          ExceptT Error (StateM Session) Report).run session =
        (.ok (Report.ofOutcomes outcomes), after) ∧
      outcomes.map Prod.fst = sources ∧
      Isolates { outputDirectory := out } path place session outcomes after := by
  generalize hconfig : ({ outputDirectory := out } : Config) = config at hsources ⊢
  have hsource : config.sourceExtension = "jack" := by rw [← hconfig]
  have houtput : config.outputExtension = "vm" := by rw [← hconfig]
  have hfound : session.files.sourcesOf config path = .ok sources :=
    ((findSources_does config path).result session).symm.trans hsources
  obtain ⟨names, rfl, hsorted, hnames⟩ :=
    FileSystem.sourcesOf_directory hsource hdirectory hfound
  have hplace := (FileSystem.find_eq_directory.mp hdirectory).2
  rcases hall : session.files.compileAll config (names.map (path.child ·.text)) with
    ⟨outcomes, later⟩
  have hresult := (compilePath_does config path).result session
  have hlater := (compilePath_does config path).files session
  simp only [hfound, hall] at hresult hlater
  have hnodup : names.Nodup := hsorted.imp fun h heq => (heq ▸ h).ne rfl
  have hfiles : ∀ name ∈ names, name.IsSource ∧
      ∃ bytes, session.files.node? (place ++ [name]) = some (.file bytes) :=
    fun name hname => ((hnames name).mp hname).symm
  obtain ⟨hmap, hagrees, written, hstage, hnoted⟩ := FileSystem.Stage.run .untouched houtput hplace
    hfiles hnodup (fun _ _ => List.not_mem_nil) hall
  rcases hrun : (compilePath config path : ExceptT Error (StateM Session) Report).run session with
    ⟨result, after⟩
  rw [hrun] at hresult hlater
  obtain rfl : result = .ok (Report.ofOutcomes outcomes) := hresult
  obtain rfl : after.files = later := hlater
  refine ⟨outcomes, after, rfl, hmap, ?sources, ?alone, ?outputs, ?distinct, ?kept, ?changed⟩
  case sources =>
    refine ⟨names, hmap, hsorted, fun name => ?_⟩
    rw [hnames, Path.extension?_child, hsource]
    rfl
  case alone =>
    intro source outcome hmem
    have hresult := (compileFile_does config source).result session
    rcases hagrees source outcome hmem with halone | ⟨hblocked, halone, hhere⟩
    · exact .inl (halone.trans hresult.symm)
    · exact .inr ⟨blocked_of_files hblocked, hresult.trans halone, hhere⟩
  case outputs =>
    intro source output hmem
    rw [(compileFile_does config source).files session]
    exact FileSystem.output_holds houtput hplace hfiles hmap hagrees hstage hnoted hmem
  case distinct =>
    refine hstage.compiled_nodup houtput hnoted ?_
    rw [hmap]
    exact hnodup.map fun _ _ h => EntryName.child_injective h
  case kept => exact hstage.grows.file
  case changed =>
    intro place bytes hfile
    refine (hstage.changed houtput hfile).imp_right ?_
    rintro ⟨name, hname, hfind⟩
    refine ⟨_, Report.mem_compiled.mpr ⟨path.child name.text, ?_⟩, hfind⟩
    exact (hnoted.only name hname).resolve_left List.not_mem_nil

/-- A directory `d` with two classes, and a file `f` beside it. -/
def twoClasses : Session where
  files :=
    let directory : EntryName := ⟨"d", by decide⟩
    { nodes := [([directory], .directory),
        ([directory, ⟨"A.jack", by decide⟩],
          .file "class A { function void f() { return; } }".toByteArray.toList),
        ([directory, ⟨"B.jack", by decide⟩],
          .file "class B { function void f() { return; } }".toByteArray.toList),
        ([⟨"f", by decide⟩], .file [])]
      nodup := by decide }

theorem twoClasses_sources (out : Option Path) :
    twoClasses.files.sourcesOf { outputDirectory := out } ⟨"d"⟩ =
      .ok [⟨"d/A.jack"⟩, ⟨"d/B.jack"⟩] := by
  have hkind : twoClasses.files.entryKind ⟨"d"⟩ = .ok .directory := by decide +kernel
  have hnames : twoClasses.files.entryNames ⟨"d"⟩ =
      .ok [⟨"A.jack", by decide⟩, ⟨"B.jack", by decide⟩] := by decide +kernel
  have hsorted : ["A.jack", "B.jack"].mergeSort (· ≤ ·) = ["A.jack", "B.jack"] :=
    List.mergeSort_of_pairwise (by decide)
  change twoClasses.files.sourcesOf {} ⟨"d"⟩ = _
  simp only [FileSystem.sourcesOf, FileSystem.sourcesIn, FileSystem.sourcesAmong, hkind, hnames,
    List.map_cons, List.map_nil, hsorted]
  decide +kernel

theorem twoClasses_isolates :
    let place : Place := [⟨"d", by decide⟩]
    let sources : List Path := [⟨"d/A.jack"⟩, ⟨"d/B.jack"⟩]
    twoClasses.files.find ⟨"d"⟩ = .ok (place, .directory) ∧
      ((Build.findSources { outputDirectory := some ⟨"out"⟩ } ⟨"d"⟩ :
        ExceptT Error (StateM Session) (List Path)).run twoClasses).1 = .ok sources ∧
      ∃ outcomes after,
        (Build.compilePath { outputDirectory := some ⟨"out"⟩ } ⟨"d"⟩ :
            ExceptT Error (StateM Session) Report).run twoClasses =
          (.ok (Report.ofOutcomes outcomes), after) ∧
        outcomes.map Prod.fst = sources ∧
        Build.Isolates { outputDirectory := some ⟨"out"⟩ } ⟨"d"⟩ place twoClasses outcomes
          after := by
  have hdirectory : twoClasses.files.find ⟨"d"⟩ = .ok ([⟨"d", by decide⟩], .directory) := by
    decide +kernel
  have hsources := ((findSources_does { outputDirectory := some ⟨"out"⟩ } ⟨"d"⟩).result
    twoClasses).trans (twoClasses_sources (some ⟨"out"⟩))
  exact ⟨hdirectory, hsources, Build.compilePath_isolates (some ⟨"out"⟩) hdirectory hsources⟩

/-- The directory `new/../f/x` cannot be made as `f` is a file. For the second class `new` is there,
so the attempt stops at another place than it does for that class alone. -/
theorem twoClasses_blocked :
    ((Build.compilePath { outputDirectory := some ⟨"new/../f/x"⟩ } ⟨"d"⟩ :
        ExceptT Error (StateM Session) Report).run twoClasses).1 =
      .ok { failed := [(⟨"d/A.jack"⟩, .io .fileExists), (⟨"d/B.jack"⟩, .io .notDirectory)] } ∧
    (twoClasses.compileFile { outputDirectory := some ⟨"new/../f/x"⟩ } ⟨"d/B.jack"⟩).1 =
      .error (.io .fileExists) := by
  refine ⟨?_, by decide +kernel⟩
  refine ((compilePath_does _ _).result twoClasses).trans ?_
  rw [twoClasses_sources]
  decide +kernel

end JackCompiler
