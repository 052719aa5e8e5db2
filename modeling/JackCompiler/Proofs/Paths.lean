import Mathlib
import JackCompiler.Files.Path
/-!
# The components of paths

A file in a directory has the components of the directory and its own name, and a parent has those
of its path but for the last one and for `.` components (`components_child`, `parent?_components`).
What a path is split into, its file name and its extension, is said for files in directories.
-/

namespace JackCompiler.Path

/-! ## Texts between separators -/

theorem pieces_ne_nil (text : List Char) : pieces text ≠ [] := by
  cases text with
  | nil => exact List.cons_ne_nil _ _
  | cons c text =>
    unfold pieces
    split
    · exact List.cons_ne_nil _ _
    · split <;> exact List.cons_ne_nil _ _

theorem pieces_append (before after : List Char) :
    pieces (before ++ '/' :: after) = pieces before ++ pieces after := by
  induction before with
  | nil => rfl
  | cons c before ih =>
    rw [List.cons_append, pieces, pieces, ih]
    split
    · rfl
    · obtain ⟨piece, rest, hpieces⟩ := List.exists_cons_of_ne_nil (pieces_ne_nil before)
      rw [hpieces]
      rfl

theorem pieces_of_not_mem {text : List Char} (h : '/' ∉ text) : pieces text = [text] := by
  induction text with
  | nil => rfl
  | cons c text ih =>
    rw [List.mem_cons, not_or] at h
    rw [pieces, if_neg (Ne.symm h.1), ih h.2]

/-- The components of a text. -/
def componentsOf (text : List Char) : List Component :=
  (pieces text).filterMap fun piece => Component.ofText? (String.ofList piece)

theorem components_eq (path : Path) : path.components = componentsOf path.text.toList := rfl

@[simp]
theorem componentsOf_nil : componentsOf [] = [] := by decide

theorem componentsOf_append (before after : List Char) :
    componentsOf (before ++ '/' :: after) = componentsOf before ++ componentsOf after := by
  rw [componentsOf, pieces_append, List.filterMap_append]
  rfl

theorem componentsOf_separator (before : List Char) :
    componentsOf (before ++ ['/']) = componentsOf before := by
  rw [componentsOf_append, componentsOf_nil, List.append_nil]

theorem componentsOf_of_not_mem {text : List Char} (h : '/' ∉ text) :
    componentsOf text = (Component.ofText? (String.ofList text)).toList := by
  rw [componentsOf, pieces_of_not_mem h]
  cases hcomponent : Component.ofText? (String.ofList text) <;> simp [hcomponent]

theorem ofText?_entry (name : EntryName) : Component.ofText? name.text = some (.entry name) := by
  obtain ⟨text, hvalid⟩ := name
  unfold Component.ofText?
  rw [if_neg hvalid.2.2.1, if_neg hvalid.2.2.2, dif_pos hvalid]

/-- A text without separators that is not empty is a component. -/
theorem exists_component {text : List Char} (hne : text ≠ []) (h : '/' ∉ text) :
    ∃ component, componentsOf text = [component] := by
  rw [componentsOf_of_not_mem h]
  unfold Component.ofText?
  split
  · exact ⟨.current, rfl⟩
  · split
    · exact ⟨.parent, rfl⟩
    · rename_i hcurrent hparent
      have hvalid : IsEntryName (String.ofList text) :=
        ⟨by simpa using hne, by simpa using h, hcurrent, hparent⟩
      rw [dif_pos hvalid]
      exact ⟨_, rfl⟩

/-! ## The end of a path -/

theorem splitLast_append (separator : Char) (text : List Char) :
    (splitLast separator text).1 ++ (splitLast separator text).2 = text := by
  rw [splitLast, ← List.reverse_append, List.takeWhile_append_dropWhile, List.reverse_reverse]

theorem not_mem_splitLast (separator : Char) (text : List Char) :
    separator ∉ (splitLast separator text).2 := by
  intro h
  simpa using List.mem_takeWhile_imp (List.mem_reverse.mp h)

/-- What stands before the last part of a text ends with the separator, if anything does. -/
theorem splitLast_start (separator : Char) (text : List Char) :
    (splitLast separator text).1 = [] ∨
      ∃ before, (splitLast separator text).1 = before ++ [separator] := by
  rw [splitLast]
  cases hrest : text.reverse.dropWhile (· ≠ separator) with
  | nil => exact .inl rfl
  | cons c rest =>
    have hc := List.head?_dropWhile_not (· ≠ separator) text.reverse
    rw [hrest] at hc
    obtain rfl : c = separator := by simpa using hc
    exact .inr ⟨rest.reverse, List.reverse_cons⟩

/-- A last part is told by the separator before it. -/
theorem splitLast_eq {separator : Char} {start last : List Char}
    (hstart : start = [] ∨ ∃ before, start = before ++ [separator]) (hlast : separator ∉ last) :
    splitLast separator (start ++ last) = (start, last) := by
  have hpass : ∀ c ∈ last.reverse, decide (c ≠ separator) = true := by
    intro c hc
    rw [decide_eq_true_eq]
    rintro rfl
    exact hlast (List.mem_reverse.mp hc)
  rw [splitLast, List.reverse_append, List.dropWhile_append_of_pos hpass,
    List.takeWhile_append_of_pos hpass]
  rcases hstart with rfl | ⟨before, rfl⟩
  · simp
  · simp

theorem dropTrailing_spec (text : List Char) :
    dropTrailing text <:+ text ∧ ∃ k, componentsOf text.reverse =
      componentsOf (dropTrailing text).reverse ++ List.replicate k .current := by
  fun_induction dropTrailing text with
  | case1 text ih =>
    obtain ⟨hsuffix, k, hk⟩ := ih
    refine ⟨hsuffix.trans (List.suffix_cons _ _), k, ?_⟩
    rw [List.reverse_cons, componentsOf_separator, hk]
  | case2 text ih =>
    obtain ⟨hsuffix, k, hk⟩ := ih
    refine ⟨(hsuffix.trans (List.suffix_cons _ _)).trans (List.suffix_cons _ _), k + 1, ?_⟩
    have hdot : componentsOf ['.'] = [.current] := by decide
    rw [List.reverse_cons, List.reverse_cons, List.append_assoc, List.singleton_append,
      componentsOf_append, hk, hdot, List.append_assoc, List.replicate_succ']
  | case3 text => exact ⟨List.suffix_refl _, 0, by rw [List.replicate_zero, List.append_nil]⟩

theorem isPrefix_trim (text : List Char) : trim text <+: text := by
  have h := (dropTrailing_spec text.reverse).1
  rwa [← List.reverse_prefix, List.reverse_reverse] at h

/-- What is trimmed are `.` components. -/
theorem componentsOf_trim (text : List Char) :
    ∃ k, componentsOf text = componentsOf (trim text) ++ List.replicate k .current := by
  have h := (dropTrailing_spec text.reverse).2
  rwa [List.reverse_reverse] at h

theorem trim_trim (text : List Char) : trim (trim text) = trim text := by
  have h : ∀ text, dropTrailing (dropTrailing text) = dropTrailing text := by
    intro text
    fun_induction dropTrailing text with
    | case1 text ih => exact ih
    | case2 text ih => exact ih
    | case3 text hslash hdot => exact dropTrailing.eq_3 text hslash hdot
  rw [trim, trim, List.reverse_reverse, h]

/-! ## Parents -/

/-- Nothing at the end of the path is trimmed. -/
def Trimmed (path : Path) : Prop := trim path.text.toList = path.text.toList

theorem isAbsolute_iff (path : Path) :
    path.isAbsolute = true ↔ path.text.toList.head? = some '/' := by
  rw [isAbsolute, decide_eq_true_eq]

/-- The last part of a text stands behind the components before it. -/
theorem componentsOf_split (text : List Char) :
    componentsOf text =
      componentsOf (splitLast '/' text).1 ++ componentsOf (splitLast '/' text).2 := by
  have htext := splitLast_append '/' text
  have hstart := splitLast_start '/' text
  generalize (splitLast '/' text).1 = start at htext hstart ⊢
  generalize (splitLast '/' text).2 = name at htext ⊢
  rcases hstart with rfl | ⟨before, rfl⟩
  · rw [← htext, List.nil_append, componentsOf_nil, List.nil_append]
  · rw [← htext, List.append_assoc, List.singleton_append, componentsOf_append,
      componentsOf_separator]

/-- A text that does not end with a separator has a last part. -/
theorem componentsOf_splitLast {text : List Char} (hne : text ≠ [])
    (hlast : text.getLast? ≠ some '/') :
    ∃ last, componentsOf text = componentsOf (splitLast '/' text).1 ++ [last] := by
  have htext := splitLast_append '/' text
  have hname : (splitLast '/' text).2 ≠ [] := by
    intro hname
    rw [hname, List.append_nil] at htext
    rcases splitLast_start '/' text with hstart | ⟨before, hstart⟩
    · exact hne (htext.symm.trans hstart)
    · exact hlast (by rw [← htext, hstart, List.getLast?_concat])
  obtain ⟨last, hcomponent⟩ := exists_component hname (not_mem_splitLast '/' text)
  exact ⟨last, by rw [componentsOf_split, hcomponent]⟩

/-- The file name of a path is its last component but for `.` components. -/
theorem components_fileName {path : Path} {name : String} (h : path.fileName? = some name) :
    ∃ (entry : EntryName) (before : List Component) (more : Nat), entry.text = name ∧
      path.components = before ++ .entry entry :: List.replicate more .current := by
  have hslash := not_mem_splitLast '/' (trim path.text.toList)
  obtain ⟨more, hmore⟩ := componentsOf_trim path.text.toList
  unfold fileName? split at h
  dsimp only at h
  rw [componentsOf_split (trim path.text.toList)] at hmore
  generalize (splitLast '/' (trim path.text.toList)).2 = last at h hslash hmore
  split at h
  · cases h
  · rename_i hlast
    rw [not_or, not_or] at hlast
    cases h
    have hvalid : IsEntryName (String.ofList last) := by
      refine ⟨?_, ?_, fun heq => hlast.2.1 ?_, fun heq => hlast.2.2 ?_⟩
      · simpa using hlast.1
      · simpa using hslash
      · simpa using congrArg String.toList heq
      · simpa using congrArg String.toList heq
    refine ⟨⟨String.ofList last, hvalid⟩, componentsOf (splitLast '/' (trim path.text.toList)).1,
      more, rfl, ?_⟩
    have hentry := ofText?_entry ⟨String.ofList last, hvalid⟩
    rw [components_eq, hmore, componentsOf_of_not_mem hslash, hentry, List.append_assoc]
    rfl

/-- What the parent of a path is: the text before its last part, trimmed, or the root. -/
theorem parent?_cases {path parent : Path} (h : path.parent? = some parent) :
    trim path.text.toList ≠ [] ∧
      ((parent.text.toList = trim (splitLast '/' (trim path.text.toList)).1 ∧
          (parent.text.toList ≠ [] ∨ (trim path.text.toList).head? ≠ some '/')) ∨
        (parent.text = "/" ∧ trim (splitLast '/' (trim path.text.toList)).1 = [] ∧
          (trim path.text.toList).head? = some '/')) := by
  unfold parent? at h
  split at h
  · cases h
  · rename_i hne
    refine ⟨hne, ?_⟩
    split at h
    · rename_i hroot hslash
      obtain rfl := Option.some.inj h
      exact .inr ⟨rfl, hroot, by rw [hslash]; rfl⟩
    · rename_i hother
      obtain rfl := Option.some.inj h
      refine .inl ⟨String.toList_ofList, ?_⟩
      rw [String.toList_ofList]
      by_contra hboth
      rw [not_or, not_not, not_not] at hboth
      obtain ⟨c, rest, htrimmed⟩ := List.exists_cons_of_ne_nil hne
      rw [htrimmed] at hboth hother
      obtain rfl : c = '/' := by simpa using hboth.2
      exact hother rest hboth.1 rfl

/-- A path has the components of its parent, maybe `.` components, its last one and maybe further
`.` components, if it is not trimmed. -/
theorem parent?_components {path parent : Path} (h : path.parent? = some parent) :
    ∃ dots last more, path.components =
        parent.components ++ List.replicate dots .current ++ last :: List.replicate more .current ∧
      (path.Trimmed → more = 0) := by
  obtain ⟨hne, hparent⟩ := parent?_cases h
  have hcomponents : parent.components =
      componentsOf (trim (splitLast '/' (trim path.text.toList)).1) := by
    rcases hparent with ⟨hparent, -⟩ | ⟨hroot, hparent, -⟩
    · rw [components_eq, hparent]
    · rw [components_eq, hroot, hparent]
      decide
  obtain ⟨last, hlast⟩ := componentsOf_splitLast hne (getLast?_trim_ne _)
  obtain ⟨dots, hdots⟩ := componentsOf_trim (splitLast '/' (trim path.text.toList)).1
  rw [hdots, ← hcomponents] at hlast
  by_cases htrimmed : path.Trimmed
  · refine ⟨dots, last, 0, ?_, fun _ => rfl⟩
    rw [components_eq, ← htrimmed, hlast]
    rfl
  · obtain ⟨more, hmore⟩ := componentsOf_trim path.text.toList
    refine ⟨dots, last, more, ?_, fun h => absurd h htrimmed⟩
    rw [components_eq, hmore, hlast, List.append_assoc _ [last], List.singleton_append]

theorem parent?_isAbsolute {path parent : Path} (h : path.parent? = some parent) :
    parent.isAbsolute = path.isAbsolute := by
  obtain ⟨hne, hparent⟩ := parent?_cases h
  have hhead {a b : List Char} (hstart : a <+: b) (ha : a ≠ []) : a.head? = b.head? := by
    obtain ⟨rest, rfl⟩ := hstart
    rw [List.head?_append_of_ne_nil _ ha]
  have hpath := hhead (isPrefix_trim path.text.toList) hne
  rw [Bool.eq_iff_iff, isAbsolute_iff, isAbsolute_iff, ← hpath]
  rcases hparent with ⟨hparent, hrelative⟩ | ⟨hroot, -, hslash⟩
  · by_cases hempty : parent.text.toList = []
    · rw [hempty] at hrelative ⊢
      simpa using hrelative
    · have hstart : parent.text.toList <+: trim path.text.toList := by
        rw [hparent]
        refine (isPrefix_trim _).trans ?_
        exact ⟨_, splitLast_append '/' (trim path.text.toList)⟩
      rw [hhead hstart hempty]
  · rw [hroot, hslash]
    decide

/-- A parent is trimmed, or it is the root. -/
theorem parent?_settled {path parent : Path} (h : path.parent? = some parent) :
    parent.Trimmed ∨ parent.parent? = none := by
  obtain ⟨-, ⟨hparent, -⟩ | ⟨hroot, -⟩⟩ := parent?_cases h
  · left
    rw [Trimmed, hparent, trim_trim]
  · obtain rfl : parent = ⟨"/"⟩ := by
      cases parent
      cases hroot
      rfl
    exact .inr (by decide)

/-! ## Files in a directory -/

/-- The text of a directory with its separator. -/
def base (directory : Path) : List Char :=
  if directory.text.toList = [] ∨ directory.text.toList.getLast? = some '/' then
    directory.text.toList
  else directory.text.toList ++ ['/']

theorem child_toList (directory : Path) (name : String) :
    (directory.child name).text.toList = directory.base ++ name.toList := by
  unfold child base
  split <;> simp [String.toList_append]

theorem base_ends (directory : Path) :
    directory.base = [] ∨ ∃ before, directory.base = before ++ ['/'] := by
  unfold base
  split
  · rename_i h
    rcases h with h | h
    · exact .inl h
    · exact .inr (List.getLast?_eq_some_iff.mp h)
  · exact .inr ⟨_, rfl⟩

theorem componentsOf_base (directory : Path) (name : List Char) :
    componentsOf (directory.base ++ name) = directory.components ++ componentsOf name := by
  unfold base
  rw [components_eq]
  split
  · rename_i h
    rcases h with h | h
    · rw [h, componentsOf_nil]
      rfl
    · obtain ⟨before, hbefore⟩ := List.getLast?_eq_some_iff.mp h
      rw [hbefore, List.append_assoc, List.singleton_append, componentsOf_append,
        componentsOf_separator]
  · rw [List.append_assoc, List.singleton_append, componentsOf_append]

theorem components_child (directory : Path) (name : EntryName) :
    (directory.child name.text).components = directory.components ++ [.entry name] := by
  have hname : componentsOf name.text.toList = [.entry name] := by
    rw [componentsOf_of_not_mem name.valid.2.1, String.ofList_toList, ofText?_entry]
    rfl
  rw [components_eq, child_toList, componentsOf_base, hname]

theorem components_dots (directory : Path) :
    (directory.child "..").components = directory.components ++ [.parent] := by
  have hdots : componentsOf "..".toList = [.parent] := by decide
  rw [components_eq, child_toList, componentsOf_base, hdots]

theorem isAbsolute_child (directory : Path) {name : String} (hname : '/' ∉ name.toList) :
    (directory.child name).isAbsolute = directory.isAbsolute := by
  rw [Bool.eq_iff_iff, isAbsolute_iff, isAbsolute_iff, child_toList, base]
  split
  · rename_i h
    by_cases hempty : directory.text.toList = []
    · rw [hempty, List.nil_append]
      refine iff_of_false (fun hhead => hname ?_) (by simp)
      exact List.mem_of_head? hhead
    · rw [List.head?_append_of_ne_nil _ hempty]
  · rename_i h
    rw [List.append_assoc, List.head?_append_of_ne_nil _ fun hempty => h (.inl hempty)]

theorem child_text_ne (directory : Path) {name : String} (hname : name ≠ "") :
    (directory.child name).text ≠ "" := by
  intro h
  have htext := child_toList directory name
  rw [h] at htext
  have hempty := (List.append_eq_nil_iff.mp htext.symm).2
  exact hname (String.toList_eq_nil_iff.mp hempty)

theorem endsWithSeparator_child (directory : Path) {name : String} (hne : name ≠ "")
    (hname : '/' ∉ name.toList) : (directory.child name).endsWithSeparator = false := by
  unfold endsWithSeparator
  rw [decide_eq_false_iff_not, child_toList]
  have hne : name.toList ≠ [] := fun h => hne (String.toList_eq_nil_iff.mp h)
  rw [List.getLast?_append_of_ne_nil _ hne]
  exact fun hlast => hname (List.mem_of_getLast? hlast)

/-- A file in a directory is split into the directory and its name. -/
theorem split_child (directory : Path) {name : String} (hne : name ≠ "")
    (hname : '/' ∉ name.toList) (hdot : name ≠ ".") :
    (directory.child name).split = (directory.base, name.toList) := by
  have htrimmed : trim (directory.base ++ name.toList) = directory.base ++ name.toList := by
    have hslash : '/' ∉ name.toList.reverse := fun h => hname (List.mem_reverse.mp h)
    have hdot : name.toList.reverse ≠ ['.'] := by
      intro h
      exact hdot (String.toList_inj.mp (by simpa using congrArg List.reverse h))
    have hne : name.toList.reverse ≠ [] := by simpa using hne
    rw [trim, List.reverse_append, dropTrailing.eq_3, ← List.reverse_append, List.reverse_reverse]
    · intro text h
      obtain ⟨c, rest, hreverse⟩ := List.exists_cons_of_ne_nil hne
      rw [hreverse] at h hslash
      cases h
      exact hslash List.mem_cons_self
    · intro text h
      rcases hreverse : name.toList.reverse with _ | ⟨c, _ | ⟨d, rest⟩⟩
      · exact hne hreverse
      · rw [hreverse] at h hdot
        exact hdot (congrArg (fun c => [c]) (List.cons.inj h).1)
      · rw [hreverse] at h hslash
        cases h
        exact hslash (List.mem_cons_of_mem _ List.mem_cons_self)
  rw [split, child_toList, htrimmed]
  exact splitLast_eq directory.base_ends hname

theorem fileName?_child (directory : Path) (name : EntryName) :
    (directory.child name.text).fileName? = some name.text := by
  obtain ⟨text, hne, hslash, hdot, hdots⟩ := name
  have h : ¬ (text.toList = [] ∨ text.toList = ['.'] ∨ text.toList = ['.', '.']) := by
    rintro (h | h | h)
    · exact hne (String.toList_inj.mp h)
    · exact hdot (String.toList_inj.mp h)
    · exact hdots (String.toList_inj.mp h)
  rw [fileName?, split_child directory hne hslash hdot]
  dsimp only
  rw [if_neg h, String.ofList_toList]

/-- A name with an extension is its stem, a dot and the extension. -/
theorem splitName_eq {name stem extension : String}
    (h : splitName name = (stem, some extension)) :
    name = stem ++ "." ++ extension ∧ stem ≠ "" := by
  have hname := splitLast_append '.' name.toList
  have hstart := splitLast_start '.' name.toList
  unfold splitName at h
  dsimp only at h
  generalize (splitLast '.' name.toList).1 = before at h hname hstart
  generalize (splitLast '.' name.toList).2 = after at h hname
  split at h
  · cases h
  · rename_i start hne
    cases h
    rcases hstart with rfl | ⟨start, rfl⟩
    · exact absurd rfl hne
    · rw [List.dropLast_concat] at hne ⊢
      refine ⟨String.toList_inj.mp ?_, fun hempty => hne ?_⟩
      · simp [String.toList_append, ← hname]
      · simpa using congrArg String.toList hempty

/-- Behind its last dot a name is split. -/
theorem splitName_append {stem extension : String} (hstem : stem ≠ "")
    (hdot : '.' ∉ extension.toList) :
    splitName (stem ++ "." ++ extension) = (stem, some extension) := by
  have htext : (stem ++ "." ++ extension).toList = (stem.toList ++ ['.']) ++ extension.toList := by
    simp [String.toList_append]
  have hne : stem.toList ≠ [] := fun h => hstem (String.toList_eq_nil_iff.mp h)
  unfold splitName
  dsimp only
  rw [htext, splitLast_eq (.inr ⟨_, rfl⟩) hdot, List.dropLast_concat]
  obtain ⟨c, rest, hcons⟩ := List.exists_cons_of_ne_nil hne
  rw [hcons]
  dsimp only
  rw [← hcons, String.ofList_toList, String.ofList_toList]

theorem extension?_child (directory : Path) (name : EntryName) :
    (directory.child name.text).extension? = (splitName name.text).2 := by
  rw [extension?, fileName?_child]
  rfl

theorem fileStem?_child (directory : Path) (name : EntryName) :
    (directory.child name.text).fileStem? = some (splitName name.text).1 := by
  rw [fileStem?, fileName?_child]
  rfl

/-- What is written behind a stem for an extension. -/
def suffix (extension : String) : String := if extension = "" then "" else "." ++ extension

/-- A file in a directory stays there with another extension or with none, if its stem is not a
dot. -/
theorem withExtension_suffix (directory : Path) (name : EntryName) (extension : String) :
    (directory.child name.text).withExtension extension =
      if (splitName name.text).1 = "." then directory.child ".."
      else directory.child ((splitName name.text).1 ++ suffix extension) := by
  have hchild (text : String) :
      (⟨String.ofList directory.base ++ text⟩ : Path) = directory.child text := by
    rw [Path.mk.injEq, ← String.toList_inj, child_toList, String.toList_append, String.toList_ofList]
  unfold withExtension
  rw [split_child directory name.valid.1 name.valid.2.1 name.valid.2.2.1, fileStem?_child]
  dsimp only
  by_cases hstem : (splitName name.text).1 = "."
  · rw [if_pos ⟨hstem, child_toList directory name.text⟩, if_pos hstem, hchild]
  · rw [if_neg fun h => hstem h.1, if_neg hstem, String.append_assoc, hchild]
    rfl

theorem withExtension_child (directory : Path) (name : EntryName) {extension : String}
    (hextension : extension ≠ "") :
    (directory.child name.text).withExtension extension =
      if (splitName name.text).1 = "." then directory.child ".."
      else directory.child ((splitName name.text).1 ++ "." ++ extension) := by
  rw [withExtension_suffix, suffix, if_neg hextension, String.append_assoc]

end JackCompiler.Path
