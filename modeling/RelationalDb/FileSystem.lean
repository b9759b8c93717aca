import Mathlib.Algebra.Order.Ring.Int
import Mathlib.Data.List.TakeWhile

set_option autoImplicit false

namespace RelationalDb

abbrev Name : Type := List UInt8

abbrev Location : Type := List Name

/-- The directories and the regular files of a system without links. -/
structure FileSystem where
  directories : List Location
  files : List Location
  workingDirectory : Location
  deriving DecidableEq, Repr

namespace FileSystem

/-- `/`. -/
def separator : UInt8 := 47

/-- `.`. -/
def dot : UInt8 := 46

def isDirectory (fs : FileSystem) (location : Location) : Bool :=
  location = [] || location ∈ fs.directories

def isFile (fs : FileSystem) (location : Location) : Bool := location ∈ fs.files

def cString (path : List UInt8) : List UInt8 := path.takeWhile (· ≠ 0)

/-- The parts of a path between the separators. -/
def components : List UInt8 → List Name
  | [] => [[]]
  | byte :: rest =>
      if byte = separator then [] :: components rest
      else
        match components rest with
        | [] => [[byte]]
        | component :: others => (byte :: component) :: others

def enter (location : Location) (component : Name) : Location :=
  if component = [] ∨ component = [dot] then location
  else if component = [dot, dot] then location.dropLast
  else location ++ [component]

/-- Where a path leads; every step starts from a directory. -/
def follow (fs : FileSystem) : Location → List Name → Option Location
  | location, [] => some location
  | location, component :: rest =>
      if fs.isDirectory location then follow fs (enter location component) rest else none

def locate (fs : FileSystem) (path : List UInt8) : Option Location :=
  match cString path with
  | [] => none
  | first :: rest =>
      fs.follow (if first = separator then [] else fs.workingDirectory) (components (first :: rest))

/-- `std::filesystem::exists`. -/
def pathExists (fs : FileSystem) (path : List UInt8) : Bool :=
  match fs.locate path with
  | some location => fs.isDirectory location || fs.isFile location
  | none => false

/-- `is_regular_file`. -/
def isRegularFile (fs : FileSystem) (path : List UInt8) : Bool :=
  match fs.locate path with
  | some location => fs.isFile location
  | none => false

/-- The file a stream is open on after an `open` for input and output. -/
def openFile (fs : FileSystem) (path : List UInt8) : Option Location :=
  (fs.locate path).filter fs.isFile

/-- An `open` for output alone makes the file, if its directory is there. -/
def createFile (fs : FileSystem) (path : List UInt8) : FileSystem :=
  match fs.locate path with
  | some location =>
      if fs.isDirectory location || fs.isFile location then fs
      else { fs with files := fs.files ++ [location] }
  | none => fs

/-- What lies directly in a directory. -/
def children (fs : FileSystem) (location : Location) : List Name :=
  (fs.directories ++ fs.files).filterMap fun entry =>
    if entry.dropLast = location then entry.getLast? else none

/-- The entries of `std::filesystem::directory_iterator`, or none where it throws. -/
def listDirectory (fs : FileSystem) (path : List UInt8) : Option (List Name) :=
  ((fs.locate path).filter fs.isDirectory).map fs.children

/-- `std::filesystem::remove`. It throws for a directory that is not empty. -/
def remove (fs : FileSystem) (path : List UInt8) : Option (Bool × FileSystem) :=
  match fs.locate path with
  | none => some (false, fs)
  | some location =>
      if fs.isFile location then
        some (true, { fs with files := fs.files.filter (· ≠ location) })
      else if fs.isDirectory location then
        if fs.children location = [] then
          some (true, { fs with directories := fs.directories.filter (· ≠ location) })
        else none
      else some (false, fs)

/-- `path::stem` of a file name: up to the last dot, which is not the first byte. -/
def stem (name : Name) : Name :=
  if name = [dot] ∨ name = [dot, dot] then name
  else
    match name.reverse.dropWhile (· ≠ dot) with
    | [] => name
    | _ :: before => if before = [] then name else before.reverse

/-- `path::extension` of a file name. -/
def extension (name : Name) : Name := name.drop (stem name).length

/-- A name that is one part of a path. -/
structure Plain (name : Name) : Prop where
  unsplit : separator ∉ name
  unended : 0 ∉ name

theorem cString_eq {path : List UInt8} (unended : 0 ∉ path) : cString path = path := by
  apply List.takeWhile_eq_self_iff.mpr
  intro byte member
  have nonzero : byte ≠ 0 := by
    rintro rfl
    exact unended member
  simpa using nonzero

theorem components_single {name : Name} (unsplit : separator ∉ name) : components name = [name] := by
  induction name with
  | nil => rfl
  | cons byte rest ih =>
      rw [List.mem_cons, not_or] at unsplit
      rw [components, if_neg (Ne.symm unsplit.1), ih unsplit.2]

theorem components_append {name : Name} (unsplit : separator ∉ name) (path : List UInt8) :
    components (name ++ separator :: path) = name :: components path := by
  induction name with
  | nil => simp [components]
  | cons byte rest ih =>
      rw [List.mem_cons, not_or] at unsplit
      rw [List.cons_append, components, if_neg (Ne.symm unsplit.1), ih unsplit.2]

/-- A name with an extension of its own is neither `.` nor `..`. -/
theorem enter_name {name : Name} (location : Location) (long : 2 < name.length) :
    enter location name = location ++ [name] := by
  have apart : ∀ short : Name, short.length ≤ 2 → name ≠ short := by
    rintro short bound rfl
    omega
  rw [enter, if_neg, if_neg]
  · exact apart [dot, dot] (Nat.le_refl _)
  · simp [apart [] (by decide), apart [dot] (by decide)]

theorem stem_append {name ending : Name} (nonempty : name ≠ []) (plain : dot ∉ ending)
    (long : ending ≠ []) : stem (name ++ dot :: ending) = name := by
  have more : 2 < (name ++ dot :: ending).length := by
    have first := List.length_pos_iff.mpr nonempty
    have second := List.length_pos_iff.mpr long
    rw [List.length_append, List.length_cons]
    omega
  have apart : ¬ (name ++ dot :: ending = [dot] ∨ name ++ dot :: ending = [dot, dot]) := by
    rintro (same | same) <;> rw [same] at more <;> exact absurd more (by decide)
  have passed : ∀ byte ∈ ending.reverse, decide (byte ≠ dot) = true := by
    intro byte member
    have other : byte ≠ dot := by
      rintro rfl
      exact plain (List.mem_reverse.mp member)
    simpa using other
  rw [stem, if_neg apart, List.reverse_append, List.reverse_cons, List.append_assoc,
    List.dropWhile_append_of_pos passed]
  simp [nonempty]

theorem extension_append {name ending : Name} (nonempty : name ≠ []) (plain : dot ∉ ending)
    (long : ending ≠ []) : extension (name ++ dot :: ending) = dot :: ending := by
  rw [extension, stem_append nonempty plain long, List.drop_left]

theorem stem_extension (name : Name) : stem name ++ extension name = name := by
  have initial : stem name <+: name := by
    unfold stem
    split
    · exact List.prefix_refl name
    · split
      · exact List.prefix_refl name
      · rename_i byte before found
        split
        · exact List.prefix_refl name
        · have suffix : byte :: before <:+ name.reverse := by
            rw [← found]
            exact List.dropWhile_suffix _
          have reversed := List.reverse_prefix.mpr suffix
          rw [List.reverse_reverse, List.reverse_cons] at reversed
          exact (List.prefix_append _ _).trans reversed
  exact List.prefix_iff_eq_append.mp initial

theorem stem_ne_nil {name : Name} (nonempty : name ≠ []) : stem name ≠ [] := by
  unfold stem
  split
  · exact nonempty
  · split
    · exact nonempty
    · split
      · exact nonempty
      · rename_i more
        exact fun empty => more (List.reverse_eq_nil_iff.mp empty)

variable {fs : FileSystem} {location : Location} {name : Name} {path : List UInt8}

theorem follow_cons (inside : fs.isDirectory location = true) (component : Name) (rest : List Name) :
    fs.follow location (component :: rest) = fs.follow (enter location component) rest := by
  rw [follow, if_pos inside]

theorem mem_children : name ∈ fs.children location ↔
    location ++ [name] ∈ fs.directories ∨ location ++ [name] ∈ fs.files := by
  rw [children, List.mem_filterMap, ← List.mem_append]
  constructor
  · rintro ⟨entry, member, last⟩
    split at last
    · rename_i above
      obtain ⟨front, rfl⟩ := List.getLast?_eq_some_iff.mp last
      rw [List.dropLast_concat] at above
      rw [← above]
      exact member
    · cases last
  · intro member
    exact ⟨_, member, by simp⟩

theorem openFile_eq (found : fs.locate path = some location) :
    fs.openFile path = if location ∈ fs.files then some location else none := by
  simp [openFile, found, isFile, Option.filter]

theorem createFile_new (found : fs.locate path = some location)
    (free : fs.isDirectory location = false) (new : location ∉ fs.files) :
    fs.createFile path = { fs with files := fs.files ++ [location] } := by
  simp [createFile, found, free, isFile, new]

theorem remove_file (found : fs.locate path = some location) (present : location ∈ fs.files) :
    fs.remove path = some (true, { fs with files := fs.files.filter (· ≠ location) }) := by
  simp [remove, found, isFile, present]

end FileSystem

end RelationalDb
