import JavaFold.Files.Access

/-!
# Files in memory

A store is a tree of directories and files, one directory of which is the working directory. A path
leads from the top if it starts with a slash, and from the working directory otherwise. A component
`.` stays where it is and `..` goes up, the top being its own parent; every component but the last
has to be a directory.

A file cannot be written at a path that only a directory can have, whether there is one or not: a
path that ends with a slash, `.` or `..`.
-/

namespace JavaFold

/-- What is found at a place of a store. -/
inductive Entry where
  /-- A directory. -/
  | directory
  /-- A file encoded in UTF-8. -/
  | text (content : String)
  /-- A file with any other content. -/
  | binary (content : ByteArray)

/-- The file with the given bytes. -/
def Entry.ofBytes (bytes : ByteArray) : Entry :=
  match String.fromUTF8? bytes with
  | some content => .text content
  | none => .binary bytes

/-- A path, taken apart. -/
structure Path where
  /-- Whether the path starts with a slash. -/
  fromTop : Bool
  /-- The components between slashes. -/
  steps : List String
  /-- Whether the path ends with a slash. -/
  slashAtEnd : Bool
  deriving DecidableEq, Repr

namespace Path

/-- The number of bytes that a path has to stay below. -/
def maxLength : Nat := 4096

/-- The largest number of bytes of a component. -/
def maxStepLength : Nat := 255

/-- Take a path apart. -/
def parse (path : String) : Except FileFailure Path :=
  if path.toList.contains '\x00' then throw .nulInName
  else if path = "" then throw .notFound
  else if maxLength ≤ path.utf8ByteSize then throw .nameTooLong
  else return {
    fromTop := path.toList.head? == some '/'
    steps := (path.splitOn "/").filter (· ≠ "")
    slashAtEnd := path.toList.getLast? == some '/' }

/-- The last component, unless only a directory can have the path. -/
def fileName? (path : Path) : Option String :=
  if path.slashAtEnd then none
  else path.steps.getLast?.filter fun name => name ≠ "." && name ≠ ".."

end Path

/-- A place in a store: the names of the directories on the way to it and its own. -/
abbrev Place := List String

/-- A tree of directories and files. -/
structure FileStore where
  /-- What is found at each place below the top. -/
  entries : List (Place × Entry)
  /-- The place from which paths lead that do not start with a slash. -/
  workingDirectory : Place

namespace FileStore

/-- The store with nothing in it. -/
def empty : FileStore := ⟨[], []⟩

instance : Inhabited FileStore := ⟨empty⟩

/-- What is found at a place. The top is a directory. -/
def find? (store : FileStore) (place : Place) : Option Entry :=
  if place = [] then some .directory
  else store.entries.findSome? fun (other, entry) => if other = place then some entry else none

/-- The store with an entry at a place, in the stead of the one that was there. -/
def put (store : FileStore) (place : Place) (entry : Entry) : FileStore :=
  { store with
    entries := (place, entry) :: store.entries.filter fun (other, _) => other ≠ place }

/-- The directories on the way to a place, the top apart. -/
def parents : Place → List Place
  | [] | [_] => []
  | name :: rest => [name] :: (parents rest).map (name :: ·)

/-- The store with an entry at a place and with the directories on the way to it. -/
def add (store : FileStore) (place : Place) (entry : Entry) : FileStore :=
  let directories := (parents place).filter fun parent => (store.find? parent).isNone
  (directories.foldl (fun store parent => store.put parent .directory) store).put place entry

/-- Refuse a place that is not a directory. -/
def checkDirectory (store : FileStore) (place : Place) : Except FileFailure Unit :=
  match store.find? place with
  | some .directory => return ()
  | some _ => throw .notDirectory
  | none => throw .notFound

/-- The place one step on from another one, which has to be a directory. -/
def enter (store : FileStore) (place : Place) (step : String) : Except FileFailure Place := do
  store.checkDirectory place
  if Path.maxStepLength < step.utf8ByteSize then throw .nameTooLong
  else if step = "." then return place
  else if step = ".." then return place.dropLast
  else return place ++ [step]

/-- The place from which a path leads. -/
def start (store : FileStore) (path : Path) : Place :=
  if path.fromTop then [] else store.workingDirectory

/-- The place that a path leads to, which need not have an entry. -/
def locate (store : FileStore) (path : Path) : Except FileFailure Place :=
  path.steps.foldlM store.enter (store.start path)

/-- The text of the file at a path. -/
def read (store : FileStore) (name : String) : Except FileFailure String := do
  let path ← Path.parse name
  match store.find? (← store.locate path) with
  | some .directory => throw .isDirectory
  | some (.text content) => if path.slashAtEnd then throw .notDirectory else return content
  | some (.binary _) => if path.slashAtEnd then throw .notDirectory else throw .notText
  | none => throw .notFound

/-- The place at which a path allows a file to be written. -/
def writable (store : FileStore) (name : String) : Except FileFailure Place := do
  let path ← Path.parse name
  let directory ← path.steps.dropLast.foldlM store.enter (store.start path)
  store.checkDirectory directory
  match path.fileName? with
  | none => throw .isDirectory
  | some fileName =>
    let place ← store.enter directory fileName
    match store.find? place with
    | some .directory => throw .isDirectory
    | _ => return place

/-- The store with a text as the content of the file at a path, which need not exist before. -/
def write (store : FileStore) (name content : String) : Except FileFailure FileStore := do
  return store.put (← store.writable name) (.text content)

/-- Access to the files of a store, which is the state. -/
def access : FileAccess (StateM FileStore) where
  read name := return (← get).read name
  write name content := modifyGet fun store =>
    match store.write name content with
    | .ok store => (.ok (), store)
    | .error failure => (.error failure, store)

/-- What was put at a place is found there, and what was found elsewhere still is. -/
theorem find?_put (store : FileStore) {place : Place} (h : place ≠ []) (entry : Entry)
    (other : Place) :
    (store.put place entry).find? other =
      if other = place then some entry else store.find? other := by
  by_cases hother : other = []
  · subst hother
    simp [find?, Ne.symm h]
  · by_cases heq : other = place
    · subst heq
      simp [find?, put, h]
    · simp only [find?, put, hother, heq, Ne.symm heq, if_false, List.findSome?_cons]
      induction store.entries with
      | nil => rfl
      | cons head rest ih =>
        by_cases hhead : head.1 = place
        · simpa [hhead, Ne.symm heq] using ih
        · by_cases hfound : head.1 = other
          · simp [hfound, heq]
          · simpa [hhead, hfound] using ih

end FileStore

end JavaFold
