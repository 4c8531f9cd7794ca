import Calculator.Session.Input

/-! # Files

What a session can open, and a model of a file system that decides it: locations are lists of names from the root,
and a path is followed name by name, through directories only.
-/

namespace Calculator

/-- What every path that can be opened delivers. Reading a file may fail before its end. -/
abbrev FileMap := String → Option Input

/-- What stands at a location. -/
inductive Node where
  | directory
  | file (input : Input)
  deriving DecidableEq, Repr

/-- A file system: locations and what stands there. -/
structure Volume where
  entries : List (List String × Node)
  deriving DecidableEq, Repr

namespace Volume

/-- A volume with nothing but the null device, which reads as an empty file. -/
def fresh : Volume := ⟨[(["dev"], .directory), (["dev", "null"], .file (.ofBytes []))]⟩

/-- What stands at a location; the root is a directory. -/
def node? (volume : Volume) (location : List String) : Option Node :=
  if location.isEmpty then some .directory
  else (volume.entries.find? fun entry => entry.1 = location).map (·.2)

/-- Put something at a location, in place of what was there. -/
def put (volume : Volume) (location : List String) (node : Node) : Volume :=
  ⟨(location, node) :: volume.entries.filter fun entry => entry.1 ≠ location⟩

/-- One step along a path. Only a directory can be passed through. -/
def step? (volume : Volume) (location : List String) (name : String) : Option (List String) :=
  match volume.node? location with
  | some .directory =>
    if name = "" ∨ name = "." then some location
    else if name = ".." then some location.dropLast
    else some (location ++ [name])
  | _ => none

/-- The location that a path leads to from a working directory. -/
def locate? (volume : Volume) (working : List String) (path : String) : Option (List String) :=
  (path.splitOn "/").foldlM volume.step? (if path.startsWith "/" then [] else working)

/-- The location of a path, with the directories on the way to it made as needed. -/
def makeParents (volume : Volume) (working : List String) (path : String) : Volume × List String :=
  let start := if path.startsWith "/" then [] else working
  let enter (state : Volume × List String) (name : String) : Volume × List String :=
    let (volume, location) := state
    let volume := if (volume.node? location).isNone then volume.put location .directory else volume
    (volume, (volume.step? location name).getD location)
  (path.splitOn "/").foldl enter (volume, start)

/-- Make a directory. -/
def makeDirectory (volume : Volume) (working : List String) (path : String) : Volume :=
  let (volume, location) := volume.makeParents working path
  if (volume.node? location).isNone then volume.put location .directory else volume

/-- Write a file. -/
def writeFile (volume : Volume) (working : List String) (path : String) (content : List UInt8) : Volume :=
  let (volume, location) := volume.makeParents working path
  volume.put location (.file (.ofBytes content))

/-- Most bytes of a path that can be followed. -/
def maxPathBytes : Nat := 4095

/-- Whether a text can be a path: it is not too long and holds no null character. -/
def isPath (path : String) : Bool := path.utf8ByteSize ≤ maxPathBytes && !path.toList.contains '\x00'

/-- The files that can be opened from a working directory. A directory cannot. -/
def files (volume : Volume) (working : List String) : FileMap := fun path =>
  if !isPath path then none
  else
    match (volume.locate? working path).bind volume.node? with
    | some (.file input) => some input
    | _ => none

variable {volume : Volume} {location working : List String} {input : Input} {path : String}

theorem node?_put (nonroot : location ≠ []) (node : Node) (other : List String) :
    (volume.put location node).node? other = if other = location then some node else volume.node? other := by
  unfold node? put
  by_cases root : other = []
  · simp [root, nonroot.symm]
  · by_cases same : other = location
    · simp [same, nonroot]
    · have kept : (volume.entries.find? fun entry => entry.1 ≠ location && entry.1 = other) =
          volume.entries.find? fun entry => entry.1 = other := by
        congr 1
        funext entry
        by_cases found : entry.1 = other <;> simp [found, same]
      simpa [root, same, Ne.symm same] using congrArg (Option.map Prod.snd) kept

theorem step?_put_file (nonroot : location ≠ []) (free : volume.node? location ≠ some .directory) :
    (volume.put location (.file input)).step? = volume.step? := by
  funext other name
  unfold step?
  rw [node?_put nonroot]
  by_cases same : other = location
  · rw [if_pos same, same]
    cases taken : volume.node? location with
    | none => rfl
    | some node =>
      cases node with
      | file => rfl
      | directory => exact absurd taken free
  · rw [if_neg same]

theorem node?_of_step? {next : List String} {name : String} (stepped : volume.step? location name = some next) :
    volume.node? location = some .directory := by
  unfold step? at stepped
  split at stepped
  · assumption
  · cases stepped

theorem makeParents_of_locate? (found : volume.locate? working path = some location) :
    volume.makeParents working path = (volume, location) := by
  unfold locate? at found
  unfold makeParents
  generalize (if path.startsWith "/" then [] else working) = start at found ⊢
  generalize path.splitOn "/" = names at found ⊢
  induction names generalizing start with
  | nil =>
    cases found
    rfl
  | cons name rest ih =>
    obtain ⟨next, stepped, found⟩ := Option.bind_eq_some_iff.mp found
    have entered := node?_of_step? stepped
    simpa [entered, stepped] using ih next found

/-- Where a file is written, paths that lead there open it, and all others open what they did before. -/
theorem files_writeFile (found : volume.locate? working path = some location)
    (free : volume.node? location ≠ some .directory) (content : List UInt8) (other : String) :
    (volume.writeFile working path content).files working other =
      if isPath other ∧ volume.locate? working other = some location then some (.ofBytes content)
      else volume.files working other := by
  have nonroot : location ≠ [] := by
    rintro rfl
    exact free rfl
  have followed : (volume.put location (.file (.ofBytes content))).locate? working other =
      volume.locate? working other := by
    unfold locate?
    rw [step?_put_file nonroot free]
  unfold writeFile files
  rw [makeParents_of_locate? found]
  dsimp only
  rw [followed]
  by_cases valid : isPath other
  · cases volume.locate? working other with
    | none => simp
    | some there => by_cases same : there = location <;> simp [valid, same, node?_put nonroot]
  · simp [valid]

end Volume

end Calculator
