import ProcessNetwork.Base64

/-!
# `NodeLoader`

The node list files of `NodeLoader.cc`.  What the files hold and how paths are resolved are given functions.  A failed
assertion
is `none`: a file that cannot be opened, or includes that are too deep.
-/

namespace ProcessNetwork

/-- `map<string, string>`. -/
abbrev NodeLibMap := List Byte → Option (List Byte)

structure FileSystem where
  contents : List Byte → Option (List Byte)
  isAbsPath : List Byte → Bool
  realPath : List Byte → List Byte
  pathConcat : List Byte → List Byte → List Byte
  dirName : List Byte → List Byte

namespace NodeLoader

/-- The variables of `Loader`. -/
structure Reading where
  tokenStack : List Byte
  stack : List (List Byte)
  data : NodeLibMap
  inComment : Bool
  escape : Bool
  inSingleQuote : Bool
  inDoubleQuote : Bool

/-- The variables before the first character. -/
def start (data : NodeLibMap) : Reading := ⟨[], [], data, false, false, false, false⟩

def endsLine (c : Byte) : Bool := c = 10 || c = 13

/-- White space: the ends of lines, blank, and the tabs and the form feed. -/
def isSpace (c : Byte) : Bool := endsLine c || c = 32 || c = 9 || c = 11 || c = 12

def absolute (fs : FileSystem) (curdir path : List Byte) : List Byte :=
  if fs.isAbsPath path = true then path else fs.realPath (fs.pathConcat curdir path)

/-- `ProcessLine`.  `load` is `Loader` for a file that is included. -/
def processLine (fs : FileSystem) (load : List Byte → NodeLibMap → Option NodeLibMap) (curdir : List Byte)
    (stack : List (List Byte)) (data : NodeLibMap) : Option NodeLibMap :=
  match stack with
  | [] => some data
  | itr :: args =>
    if itr = bytes "lib" then
      match args with
      | [] => some data
      | lib :: names =>
        if absolute fs curdir lib = [] then some data
        else some (names.foldl (fun data name => Function.update data name (some (absolute fs curdir lib))) data)
    else if itr = bytes "include" then args.foldlM (fun data inc => load (absolute fs curdir inc) data) data
    else some data

/-- `token_stack.push_back(c)`. -/
def Reading.push (s : Reading) (c : Byte) : Reading := { s with tokenStack := s.tokenStack ++ [c] }

/-- The token ends, if there is one. -/
def Reading.endToken (s : Reading) : Reading :=
  if s.tokenStack = [] then s else { s with stack := s.stack ++ [s.tokenStack], tokenStack := [] }

section Characters

variable (fs : FileSystem) (load : List Byte → NodeLibMap → Option NodeLibMap) (curdir : List Byte)

/-- The `switch` of `Loader`. -/
def plain (s : Reading) (c : Byte) : Option Reading :=
  if c = 35 then some { s with inComment := true }
  else if c = 39 then some { s with inSingleQuote := true }
  else if c = 34 then some { s with inDoubleQuote := true }
  else if c = 92 then some { s with escape := true }
  else if c = 59 then
    (processLine fs load curdir s.endToken.stack s.endToken.data).map fun data =>
      { s.endToken with stack := [], data := data }
  else if isSpace c = true then some s.endToken
  else some (s.push c)

/-- One character outside of a comment. -/
def outside (s : Reading) (c : Byte) : Option Reading :=
  if s.inSingleQuote = true then
    if c = 39 then some { s with inSingleQuote := false } else some (s.push c)
  else if s.escape = true then some { s.push c with escape := false }
  else if s.inDoubleQuote = true then
    if c = 34 then some { s with inDoubleQuote := false } else some (s.push c)
  else plain fs load curdir s c

/-- One character.  The end of the line that ends a comment is read as white space. -/
def next (s : Reading) (c : Byte) : Option Reading :=
  if s.inComment = true then
    if endsLine c = true then outside fs load curdir { s with inComment := false } c else some s
  else outside fs load curdir s c

/-- `Loader` for what the file holds. -/
def read (content : List Byte) (data : NodeLibMap) : Option NodeLibMap :=
  (content.foldlM (next fs load curdir) (start data)).bind fun s => processLine fs load curdir s.stack s.data

end Characters

/-- `Loader`, where `n` is what is left of the 100 files that may include one another. -/
def loader (fs : FileSystem) : ℕ → List Byte → NodeLibMap → Option NodeLibMap
  | 0, _, _ => none
  | n + 1, ldfile, data =>
    (fs.contents ldfile).bind fun content => read fs (loader fs n) (fs.dirName (fs.realPath ldfile)) content data

/-- `LoadNodeList`. -/
def loadNodeList (fs : FileSystem) (filename : List Byte) (data : NodeLibMap) : Option NodeLibMap :=
  loader fs 100 filename data

end NodeLoader

end ProcessNetwork
