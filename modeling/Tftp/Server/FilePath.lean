import Tftp.Lib.Paths
import Tftp.Server.Run

/-!
# The path of a request

`get_full_path` puts the file name of a request behind the root directory. What
`session_file_init` asks the system to open is compared here with the root, both
resolved lexically.
-/

namespace Tftp.Server

open Paths

/-! ## Opening by path -/

/-- The byte `/`. -/
def slash : UInt8 := 47

/-- `get_full_path` -/
def getFullPath (filename root : Bytes) : Bytes :=
  let isRootSlashTerminated := decide (root.getLast? = some slash)
  root ++ (if isRootSlashTerminated then [] else [slash]) ++ filename

/-- How a path is opened: with the flags of a read or of a write request, or as
a directory. -/
inductive OpenMode where
  | readOnly
  | createTruncate
  | directory
deriving DecidableEq, Repr

/-- What `session_file_init` opens. -/
structure Opening where
  path : Bytes
  mode : OpenMode
deriving DecidableEq, Repr

/-- The path and the flags `session_file_init` comes to. -/
def sessionFileOpening (filename : Bytes) (root : Option Bytes) (requestType : RequestType)
    (readType : ReadType) : Opening where
  path :=
    match root with
    | none => filename
    | some root => getFullPath filename root
  mode :=
    if requestType = .read ∧ readType = .directory then .directory
    else if requestType = .write then .createTruncate
    else .readOnly

/-- The files of the server, and what else `session_file_init` asks for. -/
structure FileSystem where
  allocates : Bool := true
  openFile : Bytes → OpenMode → Except OpenError ℕ
  opendir : Bytes → Option ℕ
  pipe : Option (ℕ × ℕ) := none
  setPipeSize : Bool := true
  pipeWrites : Bool := true

/-- The answers to its calls. -/
def FileSystem.answers (fs : FileSystem) (o : Opening) : FileAnswers where
  pathAllocated := fs.allocates
  openFile := fs.openFile o.path o.mode
  opendir := fs.opendir o.path
  pipe := fs.pipe
  setPipeSize := fs.setPipeSize
  pipeWrites := fs.pipeWrites

/-- `session_file_init` on the files of the server. -/
def initFile (fs : FileSystem) (filename : Bytes) (root : Option Bytes)
    (requestType : RequestType) (readType : ReadType) : Act ℤ :=
  sessionFileInit requestType readType
    (fs.answers (sessionFileOpening filename root requestType readType))

/-! ## Resolving a path -/

/-- What a name between two slashes asks for. -/
def component (name : Bytes) : Component Bytes :=
  if name = [] ∨ name = ascii "." then .stay
  else if name = ascii ".." then .parent
  else .name name

def components (path : Bytes) : List (Component Bytes) := (path.splitOn slash).map component

/-- Where a path leads. -/
def place (path : Bytes) : Place Bytes :=
  (Place.start (decide (path.head? = some slash))).walk (components path)

theorem components_append (front rest : Bytes) :
    components (front ++ slash :: rest) = components front ++ components rest := by
  rw [components, List.splitOn_append_cons_self, List.map_append]
  rfl

/-- A slash at the end of a path makes no difference. -/
theorem walk_slash (p : Place Bytes) (path : Bytes) :
    p.walk (components (path ++ [slash])) = p.walk (components path) := by
  rw [components_append, Place.walk_append]
  rfl

/-- The full path goes on from the root. -/
theorem place_getFullPath {root : Bytes} (h : root ≠ []) (filename : Bytes) :
    place (getFullPath filename root) = (place root).walk (components filename) := by
  obtain ⟨first, rest, rfl⟩ := List.exists_cons_of_ne_nil h
  have head : (getFullPath filename (first :: rest)).head? = (first :: rest).head? := rfl
  rw [place, place, head, ← Place.walk_append, ← components_append]
  generalize Place.start _ = top
  unfold getFullPath
  dsimp only
  by_cases hs : (first :: rest).getLast? = some slash
  · obtain ⟨front, hf⟩ := List.getLast?_eq_some_iff.mp hs
    rw [if_pos (decide_eq_true hs), List.append_nil, hf, List.append_assoc, List.singleton_append]
    rw [components_append (front ++ [slash]), components_append front, Place.walk_append,
      Place.walk_append, walk_slash]
  · rw [if_neg (by simpa using hs), List.append_assoc, List.singleton_append]

/-! ## Confinement -/

/-- Whatever a request asks for and whatever the system answers: the request is
refused with an error, or what is opened for it lies inside the root. -/
def Confined (filename root : Bytes) : Prop :=
  ∀ (fs : FileSystem) (requestType : RequestType) (readType : ReadType) (w w' : World) (fd : ℤ),
    initFile fs filename (some root) requestType readType w = (.ok fd, w') →
      (fd = -1 ∧ w'.session.stats.error.errorOccurred = true) ∨
        (place root).Inside
          (place (sessionFileOpening filename (some root) requestType readType).path)

/-- A file system that opens everything. -/
def openFiles : FileSystem where
  openFile _ _ := .ok 5
  opendir _ := some 5

/-- A request stays in the root exactly if its file name, read as a path of its
own, goes down again through whatever it climbs out of. -/
theorem confined_iff {root : Bytes} (h : root ≠ []) (filename : Bytes) :
    Confined filename root ↔
      (place root).Returns (Place.relative (components filename)) := by
  rw [← Place.inside_walk_iff, ← place_getFullPath h]
  constructor
  · intro confined
    have opens : initFile openFiles filename (some root) .read .file
        { session := sessionInit plainInfo ⟨someClient, []⟩ } =
          (.ok 5, { session := sessionInit plainInfo ⟨someClient, []⟩, log := [.opened 5] }) := rfl
    rcases confined _ _ _ _ _ _ opens with ⟨refused, -⟩ | inside
    · exact absurd refused (by decide)
    · exact inside
  · intro inside fs requestType readType w w' fd _
    exact .inr inside

/-- A file name may climb as long as it comes back. -/
theorem climbing_back_confined : Confined (ascii "a/../../tftp/f") (ascii "/srv/tftp") := by
  refine (confined_iff (by decide) _).mpr ⟨.inl rfl, ?_⟩
  decide

/-- The directory next to the root is served. -/
theorem parent_directory_served :
    ¬∀ filename root : Bytes, root ≠ [] → Confined filename root := by
  intro all
  have opens : initFile openFiles (ascii "../f") (some (ascii "/srv/tftp")) .read .file
      { session := sessionInit plainInfo ⟨someClient, []⟩ } =
        (.ok 5, { session := sessionInit plainInfo ⟨someClient, []⟩, log := [.opened 5] }) := rfl
  rcases all (ascii "../f") (ascii "/srv/tftp") (by decide) _ _ _ _ _ _ opens with
    ⟨refused, -⟩ | inside
  · exact absurd refused (by decide)
  · exact absurd inside.names (by decide)

end Tftp.Server
