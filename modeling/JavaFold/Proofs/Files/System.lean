import JavaFold.Files.Store
import JavaFold.Proofs.Arena.Checks

/-!
# Systems of files

What folding relies on when it reads and writes files: a path leads to a place, reading a path
changes nothing and gives the text that is found at its place, and writing one makes a text the
whole content found at its place and leaves every other place alone, or fails and changes nothing. A
store in memory is such a system.
-/

namespace JavaFold

/-- Files that are part of a state `σ`, with places of type `κ` for them. -/
structure FileSystem (σ κ : Type) where
  /-- How files are read and written. -/
  access : FileAccess (StateM σ)
  /-- What is found at a place. -/
  find? : σ → κ → Option Entry
  /-- The place that a path leads to. -/
  place? : σ → String → Option κ
  /-- Reading changes nothing. -/
  read_keeps : ∀ state path, ((access.read path).run state).2 = state
  /-- What is read is the text found at the place of the path, so there has to be one. -/
  read_found : ∀ {state path text}, ((access.read path).run state).1 = .ok text →
    ∃ place, place? state path = some place ∧ find? state place = some (.text text)
  /-- Writing that fails changes nothing. -/
  write_keeps : ∀ {state path text failure},
    ((access.write path text).run state).1 = .error failure →
      ((access.write path text).run state).2 = state
  /-- What is written is found at the place of the path, and what was found elsewhere still is. -/
  write_found : ∀ {state path text}, ((access.write path text).run state).1 = .ok () →
    ∃ place, place? state path = some place ∧
      find? ((access.write path text).run state).2 place = some (.text text) ∧
      ∀ other, other ≠ place →
        find? ((access.write path text).run state).2 other = find? state other

namespace FileStore

variable {store store' : FileStore} {name content : String} {place : Place}

/-- The place that the name of a path leads to. -/
def place? (store : FileStore) (name : String) : Option Place :=
  (Path.parse name >>= store.locate).toOption

theorem place?_eq_some {path : Path} (hpath : Path.parse name = .ok path)
    (hplace : store.locate path = .ok place) : store.place? name = some place := by
  rw [place?, bind_eq_ok.2 ⟨path, hpath, hplace⟩]
  rfl

/-- What is read is found at the place of the path. -/
theorem found_of_read (h : store.read name = .ok content) :
    ∃ place, store.place? name = some place ∧ store.find? place = some (.text content) := by
  obtain ⟨path, hpath, h⟩ := bind_eq_ok.1 h
  obtain ⟨place, hplace, h⟩ := bind_eq_ok.1 h
  refine ⟨place, place?_eq_some hpath hplace, ?_⟩
  split at h
  next => cases h
  next text hfound =>
    rw [hfound, (pure_eq_ok.1 (refuse_eq_ok.1 h).2)]
  next => cases (refuse_eq_ok.1 h).2
  next => cases h

/-- A path that a file can have ends with its name. -/
theorem steps_of_fileName? {path : Path} {fileName : String} (h : path.fileName? = some fileName) :
    path.steps = path.steps.dropLast ++ [fileName] ∧ fileName ≠ "." ∧ fileName ≠ ".." := by
  rw [Path.fileName?] at h
  split at h
  next => cases h
  next =>
    obtain ⟨hlast, hname⟩ := Option.filter_eq_some_iff.1 h
    refine ⟨(List.dropLast_append_getLast? fileName hlast).symm, ?_⟩
    simpa using hname

/-- A step to a name goes down. -/
theorem enter_eq_ok {step : String} {origin : Place} (h : store.enter origin step = .ok place)
    (hdot : step ≠ ".") (hdots : step ≠ "..") : place = origin ++ [step] := by
  obtain ⟨_, -, h⟩ := bind_eq_ok.1 h
  obtain ⟨-, h⟩ := refuse_eq_ok.1 h
  rw [if_neg hdot, if_neg hdots] at h
  exact (pure_eq_ok.1 h).symm

/-- A file can be written at the place that its path leads to, which is not the top. -/
theorem place_of_writable (h : store.writable name = .ok place) :
    store.place? name = some place ∧ place ≠ [] := by
  obtain ⟨path, hpath, h⟩ := bind_eq_ok.1 h
  obtain ⟨directory, hdirectory, h⟩ := bind_eq_ok.1 h
  obtain ⟨_, -, h⟩ := bind_eq_ok.1 h
  split at h
  next => cases h
  next fileName hname =>
    obtain ⟨place', hplace, h⟩ := bind_eq_ok.1 h
    obtain rfl : place' = place := by
      split at h
      · cases h
      · exact pure_eq_ok.1 h
    obtain ⟨hsteps, hdot, hdots⟩ := steps_of_fileName? hname
    refine ⟨place?_eq_some hpath ?_, ?_⟩
    · rw [locate, hsteps, List.foldlM_append, bind_eq_ok]
      exact ⟨directory, hdirectory, by simpa using hplace⟩
    · rw [enter_eq_ok hplace hdot hdots]
      exact List.append_ne_nil_of_right_ne_nil _ (List.cons_ne_nil _ _)

/-- What is written is found at the place of the path, and what was found elsewhere still is. -/
theorem found_of_write (h : store.write name content = .ok store') :
    ∃ place, store.place? name = some place ∧ store'.find? place = some (.text content) ∧
      ∀ other, other ≠ place → store'.find? other = store.find? other := by
  obtain ⟨place, hplace, h⟩ := bind_eq_ok.1 h
  cases pure_eq_ok.1 h
  obtain ⟨hlocated, htop⟩ := place_of_writable hplace
  refine ⟨place, hlocated, ?_, fun other hother => ?_⟩
  · rw [find?_put store htop, if_pos rfl]
  · rw [find?_put store htop, if_neg hother]

theorem run_write (store : FileStore) (name content : String) :
    (access.write name content).run store = match store.write name content with
      | .ok store' => (.ok (), store')
      | .error failure => (.error failure, store) := rfl

/-- A store, as a system of files. -/
def system : FileSystem FileStore Place where
  access := access
  find? := find?
  place? := place?
  read_keeps _ _ := rfl
  read_found := found_of_read
  write_keeps {store name content failure} h := by
    rw [run_write] at h ⊢
    split at h
    next => cases h
    next => rfl
  write_found {store name content} h := by
    rw [run_write] at h ⊢
    split at h
    next store' hwrite => exact found_of_write hwrite
    next => cases h

end FileStore

end JavaFold
