import CommissionRules.Rule.Artifact

/-!
# Folders

The files of one folder by their paths inside it.  A path may name the folder itself in between,
but nothing outside it.
-/

namespace CommissionRules

abbrev Folder (α : Type) := Dict α

namespace Folder

variable {α : Type}

def parts (path : List Char) : List (List Char) :=
  path.foldr (fun c acc =>
    match c, acc with
    | '/', acc => [] :: acc
    | c, part :: acc => (c :: part) :: acc
    | c, [] => [[c]]) [[]]

/-- The file that a path leads to, without detours, if it is one inside the folder. -/
def resolve? (path : String) : Option (List String) :=
  let all := (parts path.toList).map String.ofList
  let last := all.getLast?.getD ""
  let steps := all.filter fun part => part != "" && part != "."
  if path.startsWith "/" || last == "" || last == "." || steps.contains ".." then none
  else some steps

def read? (folder : Folder α) (path : String) : Option α :=
  (resolve? path).bind fun steps => folder.get? ("/".intercalate steps)

/-- Writes a file into the folder itself; there are no folders inside it. -/
def write? (folder : Folder α) (path : String) (content : α) : Option (Folder α) :=
  match resolve? path with
  | some [name] => some (folder.insert name content)
  | _ => none

end Folder

def CompiledRule.save? (rule : CompiledRule) (folder : Folder (List UInt8)) (path : String) :
    Option (Folder (List UInt8)) :=
  folder.write? path (Artifact.encode rule)

def CompiledRule.load? (folder : Folder (List UInt8)) (path : String) : Option CompiledRule :=
  (folder.read? path).bind Artifact.decode?

end CommissionRules
