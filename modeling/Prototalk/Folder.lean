/-
  Prototalk.Folder
  ────────────────────────────────
  **A FOLDER OF FILES.**

  The files that a command can see, each under the names that lead to it from
  the folder it is started in.  A path is walked step by step:

      name     one folder down, or to the file at the end
      ..       one folder up, never above the one it starts in
      .        stays where it is, and so does an empty step

  A step is made from a folder only, and a folder is there when it has a file
  inside.  What lies outside is not seen, so an absolute path leads nowhere.
-/

namespace Prototalk

/-- What reading a file gave. -/
inductive FileContent where
  /-- There is no such file. -/
  | missing
  /-- Its bytes. -/
  | bytes (bs : List UInt8)

/-- The steps of a path: what stands between its slashes. -/
def pathSteps (path : List Char) : List String :=
  go path []
where
  /-- Go on with a step whose characters so far are `step`, last one first. -/
  go : List Char → List Char → List String
    | [], step => [String.ofList step.reverse]
    | '/' :: rest, step => String.ofList step.reverse :: go rest []
    | c :: rest, step => go rest (c :: step)

/-- Files inside a folder. -/
structure Folder where
  /-- Each file's names from the folder down, and its bytes. -/
  files : List (List String × List UInt8)

namespace Folder

/-- Whether a step stays where it is. -/
def isIdle (step : String) : Bool := step == "" || step == "."

/-- The folder with these files, each under its path. -/
def ofFiles (files : List (String × List UInt8)) : Folder :=
  ⟨files.map fun (path, bytes) => ((pathSteps path.toList).filter (!isIdle ·), bytes)⟩

/-- Whether the names lead to the folder itself or to one inside it. -/
def isFolder (folder : Folder) (names : List String) : Bool :=
  names.isEmpty || folder.files.any fun (file, _) =>
    names.isPrefixOf file && decide (names.length < file.length)

/-- The names to which the steps lead from `here`, which is given last name first. -/
def walk (folder : Folder) (here : List String) : List String → Option (List String)
  | [] => some here.reverse
  | step :: rest =>
      if folder.isFolder here.reverse then
        if isIdle step then folder.walk here rest
        else if step == ".." then
          match here with
          | [] => none
          | _ :: above => folder.walk above rest
        else folder.walk (step :: here) rest
      else none

/-- What the file at the end of a path holds. -/
def read (folder : Folder) (path : String) : FileContent :=
  if path.toList.head? == some '/' then .missing
  else
    match folder.walk [] (pathSteps path.toList) with
    | none => .missing
    | some names =>
        match folder.files.lookup names with
        | none => .missing
        | some bytes => .bytes bytes

end Folder

end Prototalk
