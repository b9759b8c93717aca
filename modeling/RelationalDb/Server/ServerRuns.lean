import Mathlib.Data.Set.Insert
import RelationalDb.Run
import RelationalDb.Server.DbServer

set_option autoImplicit false

namespace RelationalDb.DbServer

open FileSystem (Plain separator)

inductive ServerOp where
  | start
  | createDatabase (dbName : Name)
  | openDatabase (dbName : Name)
  | deleteDatabase (dbName : Name)

inductive ServerAnswer where
  | started
  | done (success : Bool)
  | opened (dm : Option DatabaseFile)

structure ServerEvent where
  op : ServerOp
  outcome : Except FilesystemError ServerAnswer

def ServerOp.run : ServerOp → ServerProgram ServerAnswer
  | start => do
      DbServer.start
      return .started
  | createDatabase dbName => do return .done (← DbServer.createDatabase dbName)
  | openDatabase dbName => do return .opened (← DbServer.openDatabase dbName)
  | deleteDatabase dbName => do return .done (← DbServer.deleteDatabase dbName)

/-- Any calls with any names, after a first start. -/
def serverStep (log : List ServerEvent) (server : DbServer) (event : ServerEvent)
    (server' : DbServer) : Prop :=
  event.op.run server = some (event.outcome, server') ∧ (event.op = .start ∨ log ≠ [])

def setStep (_ : List ServerEvent) (names : Set Name) (event : ServerEvent) (names' : Set Name) :
    Prop :=
  match event.op with
  | .start => event.outcome = .ok .started ∧ names' = names
  | .createDatabase dbName => ∃ success, event.outcome = .ok (.done success) ∧
      (success = true ↔ dbName ∉ names) ∧ names' = insert dbName names
  | .openDatabase dbName => ∃ dm, event.outcome = .ok (.opened dm) ∧
      (dm.isSome = true ↔ dbName ∈ names) ∧ names' = names
  | .deleteDatabase dbName => ∃ success, event.outcome = .ok (.done success) ∧
      (success = true ↔ dbName ∈ names) ∧ names' = names \ {dbName}

def dataDirectory (fs : FileSystem) : Location := fs.workingDirectory ++ [ascii "data"]

def databases (fs : FileSystem) : Set Name :=
  {dbName | dbName ≠ [] ∧ dataDirectory fs ++ [dbName ++ dbExtension] ∈ fs.files}

/-- There is a data directory, with nothing but files in it. -/
structure Clean (fs : FileSystem) : Prop where
  working : fs.isDirectory fs.workingDirectory = true
  data : fs.isDirectory (dataDirectory fs) = true
  flat : ∀ name, dataDirectory fs ++ [name] ∉ fs.directories
  plain : ∀ name, dataDirectory fs ++ [name] ∈ fs.files → Plain name

def Proper (dbName : Name) : Prop := dbName ≠ [] ∧ Plain dbName

/-- A proper name to create; a proper name to open, or one that leads to no file. -/
def Meets (server : DbServer) : ServerOp → Prop
  | .createDatabase dbName => Proper dbName
  | .openDatabase dbName =>
      Proper dbName ∨ server.files.pathExists (makePath dbName) = false
  | _ => True

variable {fs : FileSystem} {name dbName : Name}

theorem Clean.notDirectory (clean : Clean fs) (name : Name) :
    fs.isDirectory (dataDirectory fs ++ [name]) = false := by
  simp [FileSystem.isDirectory, clean.flat name]

theorem plain_append {ending : Name} (plain : Plain name) (plain' : Plain ending) :
    Plain (name ++ ending) := by
  refine ⟨?_, ?_⟩
  · simp [plain.unsplit, plain'.unsplit]
  · simp [plain.unended, plain'.unended]

theorem dbExtension_plain : Plain dbExtension := ⟨by decide, by decide⟩

theorem dbFile_long (dbName : Name) : 2 < (dbName ++ dbExtension).length := by
  rw [List.length_append, show dbExtension.length = 3 from rfl]
  omega

/-- Paths that start with the name of the data directory. -/
theorem Clean.locate_data (clean : Clean fs) {rest : List UInt8} (unended : 0 ∉ rest) :
    fs.locate (ascii "data" ++ separator :: rest) =
      fs.follow (dataDirectory fs) (FileSystem.components rest) := by
  have whole : 0 ∉ ascii "data" ++ separator :: rest := by
    rw [List.mem_append, List.mem_cons, not_or, not_or]
    exact ⟨by decide, by decide, unended⟩
  have parts := @FileSystem.components_append (ascii "data") (by decide) rest
  rw [FileSystem.locate, FileSystem.cString_eq whole]
  show fs.follow fs.workingDirectory (FileSystem.components (ascii "data" ++ separator :: rest)) = _
  rw [parts, FileSystem.follow_cons clean.working, FileSystem.enter_name _ (by decide)]
  rfl

theorem Clean.locate_entry (clean : Clean fs) (plain : Plain name) (long : 2 < name.length) :
    fs.locate (dataPath ++ name) = some (dataDirectory fs ++ [name]) := by
  have path : dataPath ++ name = ascii "data" ++ separator :: name := rfl
  rw [path, clean.locate_data plain.unended, FileSystem.components_single plain.unsplit,
    FileSystem.follow_cons clean.data, FileSystem.enter_name _ long]
  rfl

theorem Clean.locate_makePath (clean : Clean fs) (plain : Plain dbName) :
    fs.locate (makePath dbName) = some (dataDirectory fs ++ [dbName ++ dbExtension]) := by
  have file := plain_append plain dbExtension_plain
  have path : makePath dbName =
      ascii "data" ++ separator :: ([] ++ separator :: (dbName ++ dbExtension)) := by
    rw [makePath, List.append_assoc]
    rfl
  rw [path, clean.locate_data (by simp [separator, file.unended]),
    FileSystem.components_append List.not_mem_nil, FileSystem.components_single file.unsplit,
    FileSystem.follow_cons clean.data]
  show fs.follow (dataDirectory fs) [dbName ++ dbExtension] = _
  rw [FileSystem.follow_cons clean.data, FileSystem.enter_name _ (dbFile_long dbName)]
  rfl

theorem Clean.exists_iff (clean : Clean fs) (proper : Proper dbName) :
    fs.pathExists (makePath dbName) = true ↔ dbName ∈ databases fs := by
  simp [FileSystem.pathExists, clean.locate_makePath proper.2, clean.notDirectory,
    FileSystem.isFile, databases, proper.1]

theorem Clean.proper (clean : Clean fs) (member : dbName ∈ databases fs) : Proper dbName := by
  have plain := clean.plain _ member.2
  refine ⟨member.1, ⟨fun inside => plain.unsplit ?_, fun inside => plain.unended ?_⟩⟩
  · exact List.mem_append_left _ inside
  · exact List.mem_append_left _ inside

variable {server server' : DbServer} {names : Set Name}

theorem openDiskManager_returns {path : List UInt8} {location : Location}
    (found : server.files.locate path = some location) (present : location ∈ server.files.files) :
    (openDiskManager path).Returns server ⟨some location⟩ server := by
  have opened : server.files.openFile path = some location := by
    rw [FileSystem.openFile_eq found, if_pos present]
  apply (Program.get_returns _).bind
  rw [opened]
  exact Program.pure_returns _ _

def withFile (server : DbServer) (location : Location) : DbServer :=
  { server with files := { server.files with files := server.files.files ++ [location] } }

def withDatabase (server : DbServer) (dbName : Name) (dm : DatabaseFile) : DbServer :=
  { server with cache := Function.update server.cache dbName (some dm) }

theorem openDiskManager_new {path : List UInt8} {location : Location}
    (found : server.files.locate path = some location)
    (free : server.files.isDirectory location = false) (new : location ∉ server.files.files) :
    ∃ dm, (openDiskManager path).Returns server dm (server.withFile location) := by
  have closed : server.files.openFile path = none := by
    rw [FileSystem.openFile_eq found, if_neg new]
  have created := FileSystem.createFile_new found free new
  refine ⟨⟨(server.withFile location).files.openFile path⟩, ?_⟩
  apply (Program.get_returns server).bind
  rw [closed]
  apply ((Program.returns_modify _ _ (server.withFile location) ⟨⟩).mpr (by rw [created]; rfl)).bind
  apply (Program.get_returns _).bind
  exact Program.pure_returns _ _

theorem store_returns (server : DbServer) (dbName : Name) (dm : DatabaseFile) :
    (store dbName dm).Returns server ⟨⟩ (server.withDatabase dbName dm) := rfl

theorem withDatabase_isSome (server : DbServer) (dbName other : Name) (dm : DatabaseFile) :
    ((server.withDatabase dbName dm).cache other).isSome = true ↔
      other = dbName ∨ (server.cache other).isSome = true := by
  simp only [withDatabase, Function.update_apply]
  split
  · rename_i same
    simp [same]
  · rename_i apart
    simp [apart]

/-- The names whose files are among some entries of the data directory. -/
def loaded (entries : List Name) : Set Name :=
  {dbName | dbName ≠ [] ∧ dbName ++ dbExtension ∈ entries}

/-- An entry is the file of its stem, or of no database. -/
theorem mem_loaded_cons {entry : Name} {rest : List Name} :
    dbName ∈ loaded (entry :: rest) ↔
      FileSystem.extension entry = dbExtension ∧ dbName = FileSystem.stem entry ∨
        dbName ∈ loaded rest := by
  have whole := FileSystem.stem_extension entry
  constructor
  · rintro ⟨nonempty, member⟩
    rcases List.mem_cons.mp member with rfl | later
    · have stem : FileSystem.stem (dbName ++ dbExtension) = dbName :=
        FileSystem.stem_append nonempty (by decide) (by decide)
      have extension : FileSystem.extension (dbName ++ dbExtension) = dbExtension :=
        FileSystem.extension_append nonempty (by decide) (by decide)
      exact Or.inl ⟨extension, stem.symm⟩
    · exact Or.inr ⟨nonempty, later⟩
  · rintro (⟨isDb, rfl⟩ | ⟨nonempty, later⟩)
    · rw [isDb] at whole
      refine ⟨FileSystem.stem_ne_nil ?_, by rw [whole]; exact List.mem_cons_self⟩
      rintro rfl
      exact absurd whole (by decide)
    · exact ⟨nonempty, List.mem_cons_of_mem _ later⟩

theorem loadEntries_returns {entries : List Name} (clean : Clean server.files)
    (present : ∀ entry ∈ entries, dataDirectory server.files ++ [entry] ∈ server.files.files) :
    ∃ server', (loadEntries entries).Returns server ⟨⟩ server' ∧ server'.files = server.files ∧
      ∀ dbName, (server'.cache dbName).isSome = true ↔
        (server.cache dbName).isSome = true ∨ dbName ∈ loaded entries := by
  induction entries generalizing server with
  | nil => exact ⟨server, Program.pure_returns _ _, rfl, by simp [loaded]⟩
  | cons entry rest ih =>
      have here := present entry List.mem_cons_self
      have later : ∀ other ∈ rest, dataDirectory server.files ++ [other] ∈ server.files.files :=
        fun other member => present other (List.mem_cons_of_mem _ member)
      have start : loadEntries (entry :: rest) server =
          (if server.files.isRegularFile (dataPath ++ entry) = false then loadEntries rest
            else if FileSystem.extension entry ≠ dbExtension then loadEntries rest
            else do
              store (FileSystem.stem entry) (← openDiskManager (dataPath ++ entry))
              loadEntries rest) server := rfl
      by_cases isDb : FileSystem.extension entry = dbExtension
      · have whole := FileSystem.stem_extension entry
        rw [isDb] at whole
        have long := dbFile_long (FileSystem.stem entry)
        rw [whole] at long
        have found := clean.locate_entry (clean.plain entry here) long
        have regular : server.files.isRegularFile (dataPath ++ entry) = true := by
          simp [FileSystem.isRegularFile, found, FileSystem.isFile, here]
        have opened := openDiskManager_returns found here
        obtain ⟨server', returned, files, cache⟩ :=
          @ih (server.withDatabase (FileSystem.stem entry) ⟨some (dataDirectory server.files ++ [entry])⟩)
            clean later
        refine ⟨server', ?_, files, ?_⟩
        · unfold Program.Returns
          rw [start, if_neg (by simp [regular]), if_neg (not_not.mpr isDb)]
          exact opened.bind ((store_returns server _ _).bind returned)
        · intro dbName
          rw [cache, withDatabase_isSome, mem_loaded_cons]
          simp only [isDb, true_and]
          exact or_assoc.trans or_left_comm
      · obtain ⟨server', returned, files, cache⟩ := ih clean later
        refine ⟨server', ?_, files, ?_⟩
        · unfold Program.Returns at returned ⊢
          rw [start]
          split
          · exact returned
          · exact returned
        · intro dbName
          rw [cache, mem_loaded_cons]
          simp only [isDb, false_and, false_or]

/-- A server whose data directory has the files of the names, and once it is started
its cache has the names. -/
structure Serves (log : List ServerEvent) (server : DbServer) (names : Set Name) : Prop where
  clean : Clean server.files
  stored : databases server.files = names
  cached : log ≠ [] → ∀ dbName, (server.cache dbName).isSome = true ↔ dbName ∈ names

theorem children_loaded (clean : Clean fs) :
    loaded (fs.children (dataDirectory fs)) = databases fs := by
  ext dbName
  simp [loaded, databases, FileSystem.mem_children, clean.flat]

theorem Clean.start_returns (clean : Clean server.files) :
    ∃ server', start.Returns server ⟨⟩ server' ∧ server'.files = server.files ∧
      ∀ dbName, (server'.cache dbName).isSome = true ↔ dbName ∈ databases server.files := by
  obtain ⟨server', returned, files, cache⟩ := @loadEntries_returns { server with cache := fun _ => none }
    (server.files.children (dataDirectory server.files)) clean (by
      intro entry member
      rcases FileSystem.mem_children.mp member with impossible | present
      · exact absurd impossible (clean.flat entry)
      · exact present)
  have found : server.files.locate dataPath = some (dataDirectory server.files) :=
    clean.locate_data List.not_mem_nil |>.trans (FileSystem.follow_cons clean.data _ _)
  have listed : server.files.listDirectory dataPath =
      some (server.files.children (dataDirectory server.files)) := by
    simp [FileSystem.listDirectory, found, clean.data, Option.filter]
  refine ⟨server', ?_, files, ?_⟩
  · apply (Program.modify_returns _ _).bind
    apply (Program.get_returns _).bind
    rw [listed]
    exact returned
  · intro dbName
    rw [cache, children_loaded clean]
    simp

theorem child_inj {other : Name} :
    dataDirectory fs ++ [other ++ dbExtension] = dataDirectory fs ++ [dbName ++ dbExtension] ↔
      other = dbName := by
  simp

/-- A file for one more database. -/
theorem Clean.withFile (clean : Clean server.files) (proper : Proper dbName) :
    Clean (server.withFile (dataDirectory server.files ++ [dbName ++ dbExtension])).files ∧
      databases (server.withFile (dataDirectory server.files ++ [dbName ++ dbExtension])).files =
        insert dbName (databases server.files) := by
  refine ⟨⟨clean.working, clean.data, clean.flat, ?_⟩, ?_⟩
  · intro name member
    rcases List.mem_append.mp member with old | new
    · exact clean.plain name old
    · obtain rfl : name = dbName ++ dbExtension := by
        simpa [dataDirectory, DbServer.withFile] using List.mem_singleton.mp new
      exact plain_append proper.2 dbExtension_plain
  · ext other
    constructor
    · rintro ⟨nonempty, member⟩
      rcases List.mem_append.mp member with old | new
      · exact Or.inr ⟨nonempty, old⟩
      · exact Or.inl (child_inj.mp (List.mem_singleton.mp new))
    · rintro (rfl | ⟨nonempty, old⟩)
      · exact ⟨proper.1, List.mem_append_right _ List.mem_cons_self⟩
      · exact ⟨nonempty, List.mem_append_left _ old⟩

def withoutDatabase (server : DbServer) (dbName : Name) (location : Location) : DbServer :=
  ⟨{ server.files with files := server.files.files.filter (· ≠ location) },
    Function.update server.cache dbName none⟩

theorem Clean.withoutDatabase (clean : Clean server.files) (dbName : Name) :
    Clean (server.withoutDatabase dbName (dataDirectory server.files ++ [dbName ++ dbExtension])).files ∧
      databases (server.withoutDatabase dbName
        (dataDirectory server.files ++ [dbName ++ dbExtension])).files =
          databases server.files \ {dbName} := by
  refine ⟨⟨clean.working, clean.data, clean.flat, ?_⟩, ?_⟩
  · intro name member
    exact clean.plain name (List.mem_of_mem_filter member)
  · ext other
    constructor
    · rintro ⟨nonempty, member⟩
      obtain ⟨old, apart⟩ := List.mem_filter.mp member
      refine ⟨⟨nonempty, old⟩, ?_⟩
      rintro rfl
      exact of_decide_eq_true apart rfl
    · rintro ⟨⟨nonempty, old⟩, apart⟩
      refine ⟨nonempty, List.mem_filter.mpr ⟨old, decide_eq_true ?_⟩⟩
      exact fun same => apart (child_inj.mp same)

variable {log : List ServerEvent}

theorem Serves.create_returns (serves : Serves log server names) (started : log ≠ [])
    (proper : Proper dbName) (event : ServerEvent) :
    ∃ success server', (createDatabase dbName).Returns server success server' ∧
      (success = true ↔ dbName ∉ names) ∧ Serves (event :: log) server' (insert dbName names) := by
  have start : createDatabase dbName server =
      (if (server.cache dbName).isSome = true then pure false
        else do
          if (← get).files.pathExists (makePath dbName) = true then return false
          else
            store dbName (← openDiskManager (makePath dbName))
            return true : ServerProgram Bool) server := rfl
  have cached := serves.cached started dbName
  have there := serves.clean.exists_iff proper
  rw [serves.stored] at there
  by_cases member : dbName ∈ names
  · refine ⟨false, server, ?_, by simp [member], ?_⟩
    · unfold Program.Returns
      rw [start, if_pos (cached.mpr member)]
      rfl
    · rw [Set.insert_eq_of_mem member]
      exact ⟨serves.clean, serves.stored, fun _ => serves.cached started⟩
  · have found := serves.clean.locate_makePath proper.2
    have new : dataDirectory server.files ++ [dbName ++ dbExtension] ∉ server.files.files := by
      intro present
      apply member
      rw [← serves.stored]
      exact ⟨proper.1, present⟩
    obtain ⟨dm, opened⟩ := openDiskManager_new found (serves.clean.notDirectory _) new
    obtain ⟨clean', stored'⟩ := serves.clean.withFile proper
    refine ⟨true, (server.withFile _).withDatabase dbName dm, ?_, by simp [member], clean',
      by rw [← serves.stored]; exact stored', ?_⟩
    · unfold Program.Returns
      rw [start, if_neg (cached.not.mpr member)]
      apply (Program.get_returns server).bind
      rw [if_neg (there.not.mpr member)]
      exact opened.bind ((store_returns _ dbName dm).bind (Program.pure_returns _ _))
    · intro _ other
      rw [withDatabase_isSome, Set.mem_insert_iff]
      exact or_congr Iff.rfl (serves.cached started other)

theorem Serves.open_returns (serves : Serves log server names) (started : log ≠ [])
    (meets : Meets server (.openDatabase dbName)) (event : ServerEvent) :
    ∃ dm, (openDatabase dbName).Returns server dm server ∧ (dm.isSome = true ↔ dbName ∈ names) ∧
      Serves (event :: log) server names := by
  have looks := Program.get_returns (ε := FilesystemError) server
  have cached := serves.cached started dbName
  have kept : Serves (event :: log) server names :=
    ⟨serves.clean, serves.stored, fun _ => serves.cached started⟩
  cases present : server.cache dbName with
  | some dm =>
      rw [present] at cached
      refine ⟨some dm, ?_, cached, kept⟩
      unfold Program.Returns
      rw [openDatabase, looks.bind_eq, present]
      rfl
  | none =>
      rw [present] at cached
      have absent : server.files.pathExists (makePath dbName) = false := by
        rcases meets with proper | absent
        · have there := serves.clean.exists_iff proper
          rw [serves.stored, ← cached] at there
          exact Bool.eq_false_iff.mpr (there.not.mpr Bool.false_ne_true)
        · exact absent
      refine ⟨none, ?_, cached, kept⟩
      unfold Program.Returns
      rw [openDatabase, looks.bind_eq, present]
      apply looks.bind
      rw [if_pos absent]
      rfl

theorem Serves.delete_returns (serves : Serves log server names) (started : log ≠ [])
    (dbName : Name) (event : ServerEvent) :
    ∃ success server', (deleteDatabase dbName).Returns server success server' ∧
      (success = true ↔ dbName ∈ names) ∧ Serves (event :: log) server' (names \ {dbName}) := by
  have looks := Program.get_returns (ε := FilesystemError) server
  have cached := serves.cached started dbName
  cases present : server.cache dbName with
  | none =>
      rw [present] at cached
      have start : deleteDatabase dbName server = some (.ok false, server) := by
        rw [deleteDatabase, looks.bind_eq, present]
        rfl
      have absent : dbName ∉ names := cached.not.mp Bool.false_ne_true
      refine ⟨false, server, start, by simp [absent], ?_⟩
      rw [Set.sdiff_singleton_eq_self absent]
      exact ⟨serves.clean, serves.stored, fun _ => serves.cached started⟩
  | some dm =>
      rw [present] at cached
      have member : dbName ∈ databases server.files := by
        rw [serves.stored]
        exact cached.mp rfl
      have found := serves.clean.locate_makePath (serves.clean.proper member).2
      have removed := FileSystem.remove_file found member.2
      obtain ⟨clean', stored'⟩ := serves.clean.withoutDatabase dbName
      refine ⟨true, _, ?_, by simpa using cached.mp rfl, clean',
        by rw [← serves.stored]; exact stored', ?_⟩
      · unfold Program.Returns
        rw [deleteDatabase, looks.bind_eq, present]
        simp only [Bind.bind, modify, modifyGet, MonadStateOf.modifyGet, MonadState.get, getThe,
          MonadStateOf.get, removed]
        rfl
      · intro _ other
        simp only [DbServer.withoutDatabase, Function.update_apply, Set.mem_sdiff,
          Set.mem_singleton_iff]
        split
        · rename_i same
          simp [same]
        · rename_i apart
          simp [apart, serves.cached started other]

/-- Each call answers as the set of names does. -/
theorem Serves.step (serves : Serves log server names) {event : ServerEvent}
    (taken : serverStep log server event server') (meets : Meets server event.op) :
    ∃ names', setStep log names event names' ∧ Serves (event :: log) server' names' := by
  obtain ⟨op, outcome⟩ := event
  obtain ⟨ended, given⟩ := taken
  have started : op ≠ .start → log ≠ [] := fun other => given.resolve_left other
  cases op with
  | start =>
      obtain ⟨after, returned, files, cache⟩ := serves.clean.start_returns
      have answered : ServerOp.start.run.Returns server .started after :=
        returned.bind (Program.pure_returns _ _)
      rw [show ServerOp.start.run server = some (_, after) from answered] at ended
      cases ended
      refine ⟨names, ⟨rfl, rfl⟩, by rw [files]; exact serves.clean, by rw [files, serves.stored], ?_⟩
      intro _ dbName
      rw [cache, serves.stored]
  | createDatabase dbName =>
      obtain ⟨success, after, returned, answer, serves'⟩ := serves.create_returns
        (started (by simp)) meets ⟨.createDatabase dbName, outcome⟩
      have answered : (ServerOp.createDatabase dbName).run.Returns server (.done success) after :=
        returned.bind (Program.pure_returns _ _)
      rw [show (ServerOp.createDatabase dbName).run server = some (_, after) from answered] at ended
      cases ended
      exact ⟨_, ⟨success, rfl, answer, rfl⟩, serves'⟩
  | openDatabase dbName =>
      obtain ⟨dm, returned, answer, serves'⟩ := serves.open_returns
        (started (by simp)) meets ⟨.openDatabase dbName, outcome⟩
      have answered : (ServerOp.openDatabase dbName).run.Returns server (.opened dm) server :=
        returned.bind (Program.pure_returns _ _)
      rw [show (ServerOp.openDatabase dbName).run server = some (_, server) from answered] at ended
      cases ended
      exact ⟨_, ⟨dm, rfl, answer, rfl⟩, serves'⟩
  | deleteDatabase dbName =>
      obtain ⟨success, after, returned, answer, serves'⟩ := serves.delete_returns
        (started (by simp)) dbName ⟨.deleteDatabase dbName, outcome⟩
      have answered : (ServerOp.deleteDatabase dbName).run.Returns server (.done success) after :=
        returned.bind (Program.pure_returns _ _)
      rw [show (ServerOp.deleteDatabase dbName).run server = some (_, after) from answered] at ended
      cases ended
      exact ⟨_, ⟨success, rfl, answer, rfl⟩, serves'⟩

/-- A run in which names to be created are proper, and names to be opened are or lead to
no file, is a run of a persistent set of names. -/
theorem persistent_names (start : DbServer) (clean : Clean start.files) (log : List ServerEvent)
    (server : DbServer)
    (run : Run (fun log server event server' => serverStep log server event server' ∧
      Meets server event.op) start log server) :
    ∃ names, Run setStep (databases start.files) log names ∧ databases server.files = names := by
  have initial : Serves [] start (databases start.files) :=
    ⟨clean, rfl, fun started => absurd rfl started⟩
  obtain ⟨names, run', serves⟩ := run.simulates Serves initial
    fun log server event server' names serves taken => serves.step taken.1 taken.2
  exact ⟨names, run', serves.stored⟩

/-- An empty data directory in the working directory. -/
def emptyFiles : FileSystem := { directories := [[ascii "data"]], files := [], workingDirectory := [] }

theorem emptyFiles_clean : Clean emptyFiles := by
  refine ⟨rfl, rfl, ?_, fun name member => by cases member⟩
  intro name member
  have lengths := congrArg List.length (List.mem_singleton.mp member)
  cases lengths

theorem persistent_names_create : ∃ (server : DbServer) (names : Set Name),
    Run setStep (databases emptyFiles)
      [⟨.createDatabase (ascii "a"), .ok (.done true)⟩, ⟨.start, .ok .started⟩] names ∧
    databases server.files = names := by
  have run : Run (fun log server event server' => serverStep log server event server' ∧
      Meets server event.op) ⟨emptyFiles, fun _ => none⟩
      [⟨.createDatabase (ascii "a"), .ok (.done true)⟩, ⟨.start, .ok .started⟩] _ :=
    (Run.nil.cons ⟨⟨rfl, Or.inl rfl⟩, trivial⟩).cons
      ⟨⟨rfl, Or.inr (List.cons_ne_nil _ _)⟩, by decide, ⟨by decide, by decide⟩⟩
  exact ⟨_, persistent_names ⟨emptyFiles, fun _ => none⟩ emptyFiles_clean _ _ run⟩

/-- A name with a separator: the file is not made, and a restart loses the name. -/
theorem createDatabase_loses_name : ∃ (log : List ServerEvent) (server : DbServer),
    Run serverStep ⟨emptyFiles, fun _ => none⟩ log server ∧
      ¬ ∃ names, Run setStep (databases emptyFiles) log names := by
  have run : Run serverStep ⟨emptyFiles, fun _ => none⟩
      [⟨.openDatabase (ascii "a/b"), .ok (.opened none)⟩, ⟨.start, .ok .started⟩,
        ⟨.createDatabase (ascii "a/b"), .ok (.done true)⟩, ⟨.start, .ok .started⟩] _ :=
    (((Run.nil.cons ⟨rfl, Or.inl rfl⟩).cons ⟨rfl, Or.inr (List.cons_ne_nil _ _)⟩).cons
      ⟨rfl, Or.inl rfl⟩).cons ⟨rfl, Or.inr (List.cons_ne_nil _ _)⟩
  refine ⟨_, _, run, ?_⟩
  rintro ⟨names, run'⟩
  cases run' with
  | cons previous opened =>
      cases previous with
      | cons previous restarted =>
          cases previous with
          | cons previous created =>
              obtain ⟨dm, isNone, answer, -⟩ := opened
              obtain ⟨_, kept⟩ := restarted
              obtain ⟨_, _, _, more⟩ := created
              cases isNone
              rw [kept, more] at answer
              exact absurd (answer.mpr (Set.mem_insert _ _)) (by decide)

end RelationalDb.DbServer
