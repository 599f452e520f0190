import ModelTypes.Files.Tree
import ModelTypes.Files.Wildcard
/-!
Searching a file tree for the locations that fit a pattern, name by name. A name that is two stars
stands for any number of directories.
-/

namespace ModelTypes.Glob

def isDeep (name : String) : Bool := name == "**"

/-- The locations that a further name of a pattern leads to. Names without wildcards are followed
if there is such a place; with wildcards, only directories count unless the name is the last. -/
def step (t : FileTree) (last : Bool) (name : String) (l : Location) : List Location :=
  let extend (names : List String) : Location := { l with names := l.names ++ names }
  if Wildcard.isWild name then
    match t.locate? l with
    | none => []
    | some here =>
      let below := (t.below here).filter fun names => last || t.isDirectory (here ++ names)
      if isDeep name then
        let visible := below.filter fun names => !names.any Wildcard.isHidden
        if last then visible.map extend
        else if t.isDirectory here then l :: visible.map extend else []
      else
        let named := below.filter fun names =>
          names.length == 1 && names.all (Wildcard.accepts name)
        named.map extend
  else
    let next := extend [name]
    if (t.locate? next).any t.contains then [next] else []

def steps (t : FileTree) : List String → List Location → List Location
  | [], found => found
  | name :: rest, found => steps t rest (found.flatMap (step t rest.isEmpty name))

/-- The locations that fit a pattern. The names before its first wildcard are taken as they are. -/
def search (t : FileTree) (pattern : Location) : List Location :=
  let plain := pattern.names.takeWhile (!Wildcard.isWild ·)
  steps t (pattern.names.drop plain.length) [{ pattern with names := plain }]

end ModelTypes.Glob
