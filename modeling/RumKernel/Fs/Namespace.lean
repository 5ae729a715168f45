import RumKernel.Lib.Program
import RumKernel.Fs.Path

/-!
# The namespace

`fs.c`: the object and reference tables, the walk along a path and the operations of the common
filesystem, over any backend. One mount exists, so objects and locations do not name it.
-/

namespace RumKernel.Fs
open Lib Prog

/-- `struct fs_backend` with its operations over the backend's state `σ`. The operations a backend may leave
out are optional. -/
structure Backend (σ : Type) where
  root : Nat
  readOnly : Bool
  lookup : Nat → Name → Prog σ FsError FsNode
  stat : Nat → Prog σ FsError FsNode
  retain : Nat → Prog σ FsError Unit
  release : Nat → Prog σ FsError Unit
  read : Nat → Nat → Nat → Prog σ FsError (FsIoResult × List Byte)
  readdir : Nat → Nat → Prog σ FsError (FsNode × Name × Nat)
  write : Option (Nat → Nat → List Byte → Prog σ FsError FsIoResult)
  replace : Option (Nat → Name → List Byte → Prog σ FsError Unit)
  remove : Option (Nat → Name → Prog σ FsError Unit)
  mkdir : Option (Nat → Name → Prog σ FsError Unit)
  truncate : Option (Nat → Nat → Prog σ FsError Unit)
  flush : Option (Prog σ FsError Unit)

/-- `struct object`; unused when `references` is 0. -/
structure Object where
  id : Nat := 0
  references : Nat := 0
  kind : FsKind := .file
  deriving DecidableEq

/-- `struct reference`; unused when `token` is 0. -/
structure Reference where
  token : Nat := 0
  object : Nat := 0
  access : Nat := 0
  deriving DecidableEq

/-- The static variables of `fs.c` and the backend's state. -/
structure Namespace (σ : Type) where
  objects : Nat → Object
  references : Nat → Reference
  nextToken : Nat
  ready : Bool
  busy : Bool
  mounted : Bool
  generation : Nat
  volume : σ

/-- `struct fs_context`; `directory` is 0 in a context that is not in use. -/
structure Context where
  directory : Nat := 0
  path : List Byte := []

/-- `struct location`: the node of the root and the nodes below it. -/
structure Location where
  base : FsNode
  below : List FsNode

/-- The node a location stands at. -/
def Location.node (l : Location) : FsNode := l.below.getLast?.getD l.base

/-- `FS_READ`. -/
def readAccess : Nat := 1

/-- `FS_WRITE`. -/
def writeAccess : Nat := 2

abbrev NsM (σ α : Type) : Type := Prog (Namespace σ) FsError α

variable {σ α : Type}

def backend (m : Prog σ FsError α) : NsM σ α :=
  ⟨fun s => ((m.run s.volume).1, { s with volume := (m.run s.volume).2 })⟩

/-- Call an optional operation of the backend. -/
def supported (m : Option (Prog σ FsError α)) : NsM σ α :=
  match m with
  | none => fail .unsupported
  | some m => backend m

def enter : NsM σ Unit := do
  let s ← get
  if !s.ready then fail .unavailable
  if s.busy then fail .busy
  modify fun s => { s with busy := true }

def leave : NsM σ Unit := modify fun s => { s with busy := false }

/-- The work of an operation between `enter` and `leave`. -/
def operation (body : NsM σ α) : NsM σ α := do
  enter
  let r ← attempt body
  leave
  lift r

/-- `valid_node`; every kind is valid. -/
def validNode (node : FsNode) : Bool := node.id != 0

/-- `root`. -/
def rootLocation (b : Backend σ) : NsM σ Location := do
  let s ← get
  if !s.mounted then fail .unavailable
  let node ← backend (b.stat b.root)
  if !validNode node ∨ node.id ≠ b.root ∨ node.kind ≠ .directory then fail .ioError
  return { base := node, below := [] }

def step (b : Backend σ) (l : Location) (name : Name) : NsM σ Location := do
  if l.node.kind ≠ .directory then fail .notDirectory
  if name = [dotByte] then return l
  if name = [dotByte, dotByte] then return { l with below := l.below.dropLast }
  if l.below.length = pathDepth then fail .tooDeep
  let node ← backend (b.lookup l.node.id name)
  if !validNode node then fail .ioError
  return { l with below := l.below ++ [node] }

/-- The loops of `resolve`. -/
def walk (b : Backend σ) : Location → List Name → NsM σ Location
  | l, [] => return l
  | l, name :: names => do
    let l ← step b l name
    walk b l names

/-- `find_reference`: the slot of a token. -/
def findReference (references : Nat → Reference) (token : Nat) : Option Nat :=
  if token = 0 then none else (List.range referenceLimit).find? fun i => (references i).token = token

def preflight (context : Option Context) (path : List Byte) : NsM σ FsPath :=
  match context with
  | none => lift (fsPathParse [slashByte] path)
  | some c => if c.directory = 0 then fail .invalid else lift (fsPathParse c.path path)

/-- The object of a context's directory. -/
def contextObject (c : Context) : NsM σ Object := do
  let s ← get
  match findReference s.references c.directory with
  | none => fail .invalid
  | some r =>
    if (s.objects (s.references r).object).kind ≠ .directory then fail .notDirectory
    return s.objects (s.references r).object

/-- The walk of `resolve` along the base path of a context, which must end at the context's directory. -/
def walkBase (b : Backend σ) (cwd : Object) (plan : FsPath) (l : Location) : NsM σ Location := do
  let l ← walk b l plan.base.names
  if cwd.id ≠ l.node.id then fail .invalid
  return l

/-- `resolve` for the first `count` components of the input. -/
def resolve (b : Backend σ) (context : Option Context) (plan : FsPath) (count : Nat) : NsM σ Location := do
  let cwd ← match context with
    | none => pure none
    | some c => do
      let object ← contextObject c
      pure (some object)
  let l ← rootLocation b
  let l ← match cwd with
    | none => pure l
    | some object => if plan.input.absolute then pure l else walkBase b object plan l
  let l ← walk b l (plan.input.names.take count)
  if count = plan.input.names.length ∧ plan.input.directory ∧ l.node.kind ≠ .directory then fail .notDirectory
  return l

def retained (objects : Nat → Object) (id : Nat) : Bool :=
  (List.range objectLimit).any fun i => (objects i).references != 0 && (objects i).id == id

def setSlot {β : Type} (table : Nat → β) (i : Nat) (x : β) : Nat → β := fun j => if j = i then x else table j

/-- The slot of an object that is in use; the loop of `new_reference` keeps the last one. -/
def findObject (objects : Nat → Object) (id : Nat) : Option Nat :=
  (List.range objectLimit).reverse.find? fun i => (objects i).references ≠ 0 ∧ (objects i).id = id

/-- `new_reference`: the token of a new reference to a node. -/
def newReference (b : Backend σ) (node : FsNode) (access : Nat) : NsM σ Nat := do
  if node.kind = .directory ∧ access &&& writeAccess ≠ 0 then fail .isDirectory
  if b.readOnly ∧ access &&& writeAccess ≠ 0 then fail .readOnly
  let s ← get
  if s.nextToken = 0 then fail .noSpace
  match (List.range referenceLimit).find? (fun i => (s.references i).token = 0), findObject s.objects node.id,
      (List.range objectLimit).find? (fun i => (s.objects i).references = 0) with
  | none, _, _ => fail .noSpace
  | some _, none, none => fail .noSpace
  | some r, some o, _ =>
    if (s.objects o).kind ≠ node.kind then fail .ioError
    modify fun s => { s with
      objects := setSlot s.objects o { s.objects o with references := (s.objects o).references + 1 }
      references := setSlot s.references r { token := s.nextToken, object := o, access }
      nextToken := (s.nextToken + 1) % 2 ^ 64 }
    return s.nextToken
  | some r, none, some o =>
    backend (b.retain node.id)
    modify fun s => { s with
      objects := setSlot s.objects o { id := node.id, references := 1, kind := node.kind }
      references := setSlot s.references r { token := s.nextToken, object := o, access }
      nextToken := (s.nextToken + 1) % 2 ^ 64 }
    return s.nextToken

def closeReference (b : Backend σ) (token : Nat) : NsM σ Unit := do
  let s ← get
  match findReference s.references token with
  | none => fail .invalid
  | some r =>
    let o := (s.references r).object
    let saved := s.objects o
    modify fun s => { s with
      references := setSlot s.references r {}
      objects := setSlot s.objects o
        (if saved.references = 1 then {} else { saved with references := saved.references - 1 }) }
    if saved.references = 1 then backend (b.release saved.id)

/-- The object of a reference, with its access. -/
def referenced (token : Nat) : NsM σ (Object × Nat) := do
  let s ← get
  match findReference s.references token with
  | none => fail .invalid
  | some r => return (s.objects (s.references r).object, (s.references r).access)

/-- `fs_open`; a null result pointer is not modelled. -/
def fsOpen (b : Backend σ) (context : Option Context) (path : List Byte) (access : Nat) : NsM σ Nat := do
  if access = 0 ∨ access > 3 then fail .invalid
  let plan ← preflight context path
  operation do
    let l ← resolve b context plan plan.input.names.length
    newReference b l.node access

def fsDuplicate (b : Backend σ) (token : Nat) : NsM σ Nat :=
  operation do
    let (object, access) ← referenced token
    newReference b { id := object.id, size := 0, kind := object.kind } access

def fsClose (b : Backend σ) (token : Nat) : NsM σ Unit := operation (closeReference b token)

/-- `fs_stat`: the node of a reference. -/
def fsStat (b : Backend σ) (token : Nat) : NsM σ FsNode :=
  operation do
    let (object, _) ← referenced token
    let node ← backend (b.stat object.id)
    if !validNode node ∨ node.id ≠ object.id ∨ node.kind ≠ object.kind then fail .ioError
    return node

/-- `io` for reading; a null buffer is not modelled. -/
def fsRead (b : Backend σ) (token offset bytes : Nat) : NsM σ (FsIoResult × List Byte) := do
  if bytes > 2 ^ 64 - 1 - offset then fail .range
  operation do
    let (object, access) ← referenced token
    if access &&& readAccess = 0 then fail .access
    if object.kind ≠ .file then fail .isDirectory
    if bytes = 0 then return ({}, [])
    let (result, data) ← backend (b.read object.id offset bytes)
    if result.transferred > bytes then return ({ error := some .ioError }, data)
    return (result, data)

/-- `io` for writing. -/
def fsWrite (b : Backend σ) (token offset : Nat) (data : List Byte) : NsM σ FsIoResult := do
  if data.length > 2 ^ 64 - 1 - offset then fail .range
  operation do
    let (object, access) ← referenced token
    if access &&& writeAccess = 0 then fail .access
    if object.kind ≠ .file then fail .isDirectory
    if b.readOnly then fail .readOnly
    if data.length = 0 then return {}
    let result ← supported (b.write.map fun write => write object.id offset data)
    if result.transferred > data.length then return { error := some .ioError }
    return result

/-- `fs_readdir`: the entry, its name in upper case and the next cursor. -/
def fsReaddir (b : Backend σ) (token cursor : Nat) : NsM σ (FsNode × Name × Nat) :=
  operation do
    let (object, access) ← referenced token
    if access &&& readAccess = 0 then fail .access
    if object.kind ≠ .directory then fail .notDirectory
    let (node, name, next) ← backend (b.readdir object.id cursor)
    if next ≤ cursor ∨ fsNameCheck name ≠ .ok () then fail .ioError
    return (node, name.map upper, next)

/-- `fs_context_initialize`: the new context. -/
def contextInitialize (b : Backend σ) (context : Context) : NsM σ Context := do
  if context.directory ≠ 0 then fail .invalid
  let directory ← fsOpen b none [slashByte] readAccess
  return { directory, path := [slashByte] }

/-- `fs_context_clone`: the destination context. -/
def contextClone (b : Backend σ) (source destination : Context) : NsM σ Context := do
  if destination.directory ≠ 0 then fail .invalid
  if source.directory = 0 then
    match ← attempt (contextInitialize b destination) with
    | .ok context => return context
    | .error .unavailable => return destination
    | .error e => fail e
  else
    operation do
      let object ← contextObject source
      let token ← newReference b { id := object.id, size := 0, kind := .directory } readAccess
      return { source with directory := token }

/-- `fs_context_chdir`: the changed context. -/
def contextChdir (b : Backend σ) (context : Context) (path : List Byte) : NsM σ Context := do
  let plan ← preflight (some context) path
  operation do
    let l ← resolve b (some context) plan plan.input.names.length
    if l.node.kind ≠ .directory then fail .notDirectory
    let directory ← newReference b l.node readAccess
    let _ ← attempt (closeReference b context.directory)
    return { directory, path := render plan.canonical }

/-- `fs_context_destroy`: the emptied context. -/
def contextDestroy (b : Backend σ) (context : Context) : NsM σ Context := do
  if context.directory = 0 then return {}
  fsClose b context.directory
  return {}

end RumKernel.Fs
