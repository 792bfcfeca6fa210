import LineBasic.Json.Basic
import LineBasic.Path

/-!
Trees of files in memory. A node is a JSON object: its `type` is `txt` for a
text file, its `content` is the text, and its `children` are the nodes below
it by name. Any node may have children, and only a text file can be read; one
without content is empty. Null stands for no node at all.

Values of other kinds may stand where these are expected. They matter only on
the way of a path, and are then a malformation of the tree.
-/

namespace LineBasic

abbrev FileTree := Json

inductive Malformation where
  | node (k : Json.Kind)
  | children (k : Json.Kind)
  -- an array or a string that holds the name itself
  | nameOnly (k : Json.Kind)
  | content (k : Json.Kind)
deriving DecidableEq, Repr

inductive ReadError where
  | missing
  | notText
  | malformed (m : Malformation)
deriving DecidableEq, Repr

def ReadError.reason : ReadError → String
  | .missing => "No such file"
  | .notText => "Not a text file"
  | .malformed _ => "Malformed file tree"

def ReadError.message (path : String) (e : ReadError) : String :=
  "run: '" ++ path ++ "': " ++ e.reason

namespace FileTree

def occurs (word : List Char) : List Char → Bool
  | [] => word.isEmpty
  | c :: cs => word.isPrefixOf (c :: cs) || occurs word cs

/-- The node of a name among the children of a node. Children that are void
hold nothing. -/
def pick (name : String) (children : Json) : Except Malformation (Option FileTree) :=
  if children.isVoid then .ok none
  else
    match children with
    | .object fields => .ok (Json.field? name fields)
    | .array elements =>
      if elements.any (Json.isString name) then .error (.nameOnly .array) else .ok none
    | .string s =>
      if occurs name.toList s.toList then .error (.nameOnly .string) else .ok none
    | other => .error (.children other.kind)

def child (name : String) : FileTree → Except Malformation (Option FileTree)
  | .object fields =>
    match Json.field? "children" fields with
    | some children => pick name children
    | none => .ok none
  | other => .error (.node other.kind)

def find (tree : FileTree) : Path → Except Malformation (Option FileTree)
  | [] => .ok (some tree)
  | segment :: rest =>
    match child segment tree with
    | .ok (some next) => find next rest
    | .ok none => .ok none
    | .error m => .error m

def contentText : Option Json → Except ReadError String
  | none => .ok ""
  | some (.string s) => .ok s
  | some other => .error (.malformed (.content other.kind))

def text : FileTree → Except ReadError String
  | .null => .error .missing
  | .object fields =>
    if (Json.field? "type" fields).any (Json.isString "txt") then
      contentText (Json.field? "content" fields)
    else .error .notText
  | other => .error (.malformed (.node other.kind))

/-- The text of the file at a path, resolved against a directory. -/
def read (tree : FileTree) (directory : Path) (path : String) : Except ReadError String :=
  match find tree (Path.resolve directory path) with
  | .ok (some found) => text found
  | .ok none => .error .missing
  | .error m => .error (.malformed m)

/-- The lines of the file at a path, cut at line feeds only. -/
def readLines (tree : FileTree) (directory : Path) (path : String) :
    Except ReadError (List String) :=
  (read tree directory path).map (Text.stringFields '\n')

end FileTree

end LineBasic
