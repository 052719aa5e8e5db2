/-!
# File paths

A path is text whose components `/` separates. Separators and `.` components at its end do not
count. The file name is the last component, unless that is `.`, `..` or the root; its extension is
what follows its last dot, unless that dot is its first character, and its stem is what comes
before. A parent's text is shorter (`parent?_length_lt`), so every path has finitely many ancestors.
-/

namespace JackCompiler

/-- A name has no separator, and `.` and `..` are not names of their own. -/
abbrev IsEntryName (text : String) : Prop :=
  text ≠ "" ∧ '/' ∉ text.toList ∧ text ≠ "." ∧ text ≠ ".."

/-- The name of an entry of a directory. -/
structure EntryName where
  text : String
  valid : IsEntryName text
  deriving DecidableEq, Repr

/-- A step from a directory: to itself, to the one above it, or to an entry. -/
inductive Component
  | current
  | parent
  | entry (name : EntryName)
  deriving DecidableEq, Repr

/-- The step a text without separators stands for. -/
def Component.ofText? (text : String) : Option Component :=
  if text = "." then some .current
  else if text = ".." then some .parent
  else if h : IsEntryName text then some (.entry ⟨text, h⟩)
  else none

structure Path where
  text : String
  deriving DecidableEq, Repr

namespace Path

/-- The text through the last separator, and the text after it. -/
def splitLast (separator : Char) (text : List Char) : List Char × List Char :=
  ((text.reverse.dropWhile (· ≠ separator)).reverse,
    (text.reverse.takeWhile (· ≠ separator)).reverse)

/-- Drops separators and `.` components from the front of a reversed path. -/
def dropTrailing : List Char → List Char
  | '/' :: text => dropTrailing text
  | '.' :: '/' :: text => dropTrailing text
  | text => text

/-- The text without the separators and `.` components at its end. -/
def trim (text : List Char) : List Char := (dropTrailing text.reverse).reverse

/-- What stands before the last component, and that component. -/
def split (path : Path) : List Char × List Char := splitLast '/' (trim path.text.toList)

def fileName? (path : Path) : Option String :=
  let name := path.split.2
  if name = [] ∨ name = ['.'] ∨ name = ['.', '.'] then none else some (String.ofList name)

/-- The stem of a file name, and its extension if it has one. -/
def splitName (name : String) : String × Option String :=
  let (before, after) := splitLast '.' name.toList
  match before.dropLast with
  | [] => (name, none)
  | stem => (String.ofList stem, some (String.ofList after))

def fileStem? (path : Path) : Option String := path.fileName?.map fun name => (splitName name).1

def extension? (path : Path) : Option String := path.fileName?.bind fun name => (splitName name).2

/-- The entry of a directory with a name. -/
def child (directory : Path) (name : String) : Path :=
  if directory.text.toList = [] ∨ directory.text.toList.getLast? = some '/' then
    ⟨directory.text ++ name⟩
  else ⟨directory.text ++ "/" ++ name⟩

/-- The path without its last component. The root and the empty path have no parent. -/
def parent? (path : Path) : Option Path :=
  match trim path.text.toList with
  | [] => none
  | trimmed =>
    match trim (splitLast '/' trimmed).1, trimmed with
    | [], '/' :: _ => some ⟨"/"⟩
    | parent, _ => some ⟨String.ofList parent⟩

/-- Gives the file name another extension, or none if the extension is empty. The old extension is
cut off first, up to its dot: `..jack` at the end of a path leaves `..`, which is no file name and
takes no extension. A path without file name stays as it is. -/
def withExtension (path : Path) (extension : String) : Path :=
  let (start, name) := path.split
  match path.fileStem? with
  | none => path
  | some stem =>
    if stem = "." ∧ path.text.toList = start ++ name then ⟨String.ofList start ++ ".."⟩
    else
      let suffix := if extension = "" then "" else "." ++ extension
      ⟨String.ofList start ++ stem ++ suffix⟩

/-- The path of a file beside this one. -/
def withFileName (path : Path) (name : String) : Path :=
  match path.fileName?, path.parent? with
  | some _, some parent => parent.child name
  | _, _ => path.child name

/-! ## Ancestors -/

theorem dropTrailing_length_le (text : List Char) : (dropTrailing text).length ≤ text.length := by
  fun_induction dropTrailing text <;> grind

theorem head?_dropTrailing_ne (text : List Char) : (dropTrailing text).head? ≠ some '/' := by
  fun_induction dropTrailing text with
  | case1 text ih => exact ih
  | case2 text ih => exact ih
  | case3 text h =>
    cases text with
    | nil => simp
    | cons c text => exact fun hc => h text (by simp_all)

theorem trim_length_le (text : List Char) : (trim text).length ≤ text.length := by
  simpa [trim] using dropTrailing_length_le text.reverse

theorem getLast?_trim_ne (text : List Char) : (trim text).getLast? ≠ some '/' := by
  simpa [trim] using head?_dropTrailing_ne text.reverse

/-- A text that ends in something but the separator has a last part. -/
theorem splitLast_length_lt {separator : Char} {text : List Char} (h : text ≠ [])
    (hlast : text.getLast? ≠ some separator) :
    (splitLast separator text).1.length < text.length := by
  cases hrev : text.reverse with
  | nil => simp_all
  | cons c rest =>
    have hc : c ≠ separator := by
      intro hc
      rw [← List.head?_reverse, hrev] at hlast
      simp_all
    have hle := (List.dropWhile_suffix (l := rest) fun c => decide (c ≠ separator)).length_le
    have hlen : rest.length + 1 = text.length := by simpa using (congrArg List.length hrev).symm
    rw [splitLast, hrev, List.dropWhile_cons_of_pos (by simpa using hc), List.length_reverse]
    omega

theorem parent?_length_lt {path parent : Path} (h : path.parent? = some parent) :
    parent.text.length < path.text.length := by
  have hlast := getLast?_trim_ne path.text.toList
  have hle := trim_length_le path.text.toList
  rw [String.length_toList] at hle
  unfold parent? at h
  split at h
  · simp at h
  · next hne =>
    have hlt := splitLast_length_lt hne hlast
    have hle' := trim_length_le (splitLast '/' (trim path.text.toList)).1
    split at h
    · next rest _ heq =>
      obtain rfl : parent = ⟨"/"⟩ := by simpa using h.symm
      cases rest with
      | nil => simp [heq] at hlast
      | cons c rest =>
        have : "/".length = 1 := by decide
        simp_all
        omega
    · obtain rfl : parent = ⟨String.ofList _⟩ := by simpa using h.symm
      rw [String.length_ofList]
      omega

/-- The path and its parents, as far as they have one. -/
def ancestors (path : Path) : List Path :=
  match _h : path.parent? with
  | none => [path]
  | some parent => path :: parent.ancestors
termination_by path.text.length
decreasing_by exact parent?_length_lt (by assumption)

/-! ## Components -/

/-- The parts of a text between its separators. -/
def pieces : List Char → List (List Char)
  | [] => [[]]
  | c :: text =>
    if c = '/' then [] :: pieces text
    else
      match pieces text with
      | [] => [[c]]
      | piece :: rest => (c :: piece) :: rest

/-- The components of the path. Between two separators in a row there is none. -/
def components (path : Path) : List Component :=
  (pieces path.text.toList).filterMap fun piece => Component.ofText? (String.ofList piece)

/-- Whether the path starts at the root. -/
def isAbsolute (path : Path) : Bool := path.text.toList.head? = some '/'

/-- Whether the path ends with a separator, and so names a directory only. -/
def endsWithSeparator (path : Path) : Bool := path.text.toList.getLast? = some '/'

end Path

end JackCompiler
