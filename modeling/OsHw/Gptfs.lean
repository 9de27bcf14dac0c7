import OsHw.Table
import OsHw.GptSession

/-! The file system of `gptfs.py`: a dictionary of session names over session objects, and the operations, each of
which splits and checks its path on its own. An object lives on after its name has been removed, as long as a
writer or a worker holds it. One label is one operation, or one step of a writer or a worker of some object. -/

namespace OsHw.Gpt

/-- `str.strip('/')`. -/
def stripSlash (p : List Char) : List Char :=
  ((p.dropWhile (· == '/')).reverse.dropWhile (· == '/')).reverse

/-- `path.strip('/').split('/')`. -/
def parts (path : String) : List String := ((stripSlash path.toList).splitOn '/').map String.ofList

abbrev ObjId := Nat

structure Entry where
  name : String
  obj : ObjId
  deriving DecidableEq, Repr

structure Gptfs where
  sessions : List Entry
  objs : ObjId → Session
  /-- The objects created so far. -/
  count : Nat
  fd : Nat

abbrev Errno := Nat

def eperm : Errno := 1

def enoent : Errno := 2

def eexist : Errno := 17

/-- How an operation that returns a number ends: it returns, or it raises `FuseOSError`. -/
inductive Outcome where
  | returned (n : Int)
  | raised (errno : Errno)
  deriving DecidableEq, Repr

/-- A raised error and a negative number are failures. -/
def Outcome.failed : Outcome → Bool
  | .returned n => n < 0
  | .raised _ => true

inductive Attr where
  | directory
  | file (size : Nat)
  deriving DecidableEq, Repr

/-- What `read` returns: bytes, or a slice of what the object has under another attribute name. -/
inductive ReadResult where
  | bytes (b : ByteArray)
  | attribute (fname : String)

/-- The bytes of a file of the session. -/
def Session.file (s : Session) (fname : String) : Option ByteArray :=
  if fname = "input" then some s.input
  else if fname = "output" then some s.output
  else if fname = "error" then some s.error
  else none

def isFile (fname : String) : Bool := fname = "input" ∨ fname = "output" ∨ fname = "error"

namespace Gptfs

def init : Gptfs := ⟨[], fun _ => .new, 0, 0⟩

/-- The object of a session name. -/
def find (fs : Gptfs) (name : String) : Option ObjId := (Table.find Entry.name name fs.sessions).map Entry.obj

/-- `_get_size`. -/
def getSize (fs : Gptfs) (o : ObjId) (fname : String) : Nat := (((fs.objs o).file fname).map ByteArray.size).getD 0

def getattr (fs : Gptfs) (path : String) : Except Errno Attr :=
  if path = "/" then .ok .directory
  else
    match parts path with
    | [name] => if name ≠ "" ∧ (fs.find name).isSome then .ok .directory else .error enoent
    | [name, fname] =>
        match fs.find name with
        | none => .error enoent
        | some o => if isFile fname then .ok (.file (fs.getSize o fname)) else .error enoent
    | _ => .error enoent

def readdir (fs : Gptfs) (path : String) : Except Errno (List String) :=
  if path = "/" then .ok ([".", ".."] ++ fs.sessions.map Entry.name)
  else
    match parts path with
    | [name] => if (fs.find name).isSome then .ok [".", "..", "input", "output", "error"] else .error enoent
    | _ => .error enoent

def mkdir (fs : Gptfs) (path : String) : Gptfs × Outcome :=
  match parts path with
  | [name] =>
      if (fs.find name).isSome then (fs, .returned (-eexist))
      else
        ({ fs with
          sessions := fs.sessions ++ [⟨name, fs.count⟩]
          objs := Function.update fs.objs fs.count .new
          count := fs.count + 1 }, .returned 0)
  | _ => (fs, .returned (-eperm))

def rmdir (fs : Gptfs) (path : String) : Gptfs × Outcome :=
  match parts path with
  | [name] =>
      if (fs.find name).isSome then ({ fs with sessions := Table.erase Entry.name name fs.sessions }, .returned 0)
      else (fs, .raised enoent)
  | _ => (fs, .returned (-eperm))

-- The name of the operation is `open`, which is a keyword here.
def openFile (fs : Gptfs) (path : String) : Gptfs × Outcome :=
  match parts path with
  | [name, fname] =>
      if (fs.find name).isSome then
        if isFile fname then ({ fs with fd := fs.fd + 1 }, .returned (fs.fd + 1)) else (fs, .raised enoent)
      else (fs, .raised enoent)
  | _ => (fs, .returned (-eperm))

def read (fs : Gptfs) (path : String) (size offset : Nat) : ReadResult :=
  match parts path with
  | [name, fname] =>
      match fs.find name with
      | none => .bytes .empty
      | some o =>
          match (fs.objs o).file fname with
          | some buf => .bytes (buf.extract offset (offset + size))
          | none => .attribute fname
  | _ => .bytes .empty

/-- How far `write` comes before it takes the lock: it has failed, or it has found the object. -/
def writeTarget (fs : Gptfs) (path : String) : Except Outcome ObjId :=
  match parts path with
  | [name, fname] =>
      match fs.find name with
      | none => .error (.raised enoent)
      | some o => if fname ≠ "input" then .error (.returned (-eperm)) else .ok o
  | _ => .error (.returned (-eperm))

def setObj (fs : Gptfs) (o : ObjId) (s : Session) : Gptfs := { fs with objs := Function.update fs.objs o s }

@[simp] theorem objs_setObj (fs : Gptfs) (o : ObjId) (s : Session) : (fs.setObj o s).objs o = s :=
  Function.update_self _ _ _

theorem objs_setObj_of_ne {o o' : ObjId} (h : o ≠ o') (fs : Gptfs) (s : Session) :
    (fs.setObj o' s).objs o = fs.objs o := Function.update_of_ne h _ _

def truncate (fs : Gptfs) (path : String) (length : Nat) : Gptfs × Outcome :=
  match parts path with
  | [name, fname] =>
      match fs.find name with
      | none => (fs, .raised enoent)
      | some o =>
          if fname = "input" then (fs.setObj o ((fs.objs o).truncate length), .returned 0) else (fs, .returned 0)
  | _ => (fs, .returned (-eperm))

def unlink (_ : String) : Outcome := .returned (-eperm)

end Gptfs

inductive FsLabel where
  | getattr (path : String)
  | readdir (path : String)
  | mkdir (path : String)
  | rmdir (path : String)
  | openFile (path : String)
  | read (path : String) (size offset : Nat)
  /-- A call of `write`, up to the lock. -/
  | write (w : WriterId) (path : String) (data : ByteArray) (offset : Nat)
  | truncate (path : String) (length : Nat)
  | unlink (path : String)
  /-- A further step of a writer or a step of a worker of an object. -/
  | inner (o : ObjId) (l : Label)

inductive FsEvent where
  | attr (r : Except Errno Attr)
  | names (r : Except Errno (List String))
  | outcome (r : Outcome)
  | made (name : String)
  | content (r : ReadResult)
  | inner (e : Event)

/-- The steps that a writer or a worker takes by itself. -/
def Label.isInner : Label → Bool
  | .write .. | .truncate _ => false
  | _ => true

namespace Gptfs

/-- A step of one object. -/
def stepObj (fs : Gptfs) (o : ObjId) (l : Label) : Option (Gptfs × FsEvent) :=
  match (fs.objs o).step l with
  | none => none
  | some (s, e) => some (fs.setObj o s, .inner e)

def step (fs : Gptfs) : FsLabel → Option (Gptfs × FsEvent)
  | .getattr path => some (fs, .attr (fs.getattr path))
  | .readdir path => some (fs, .names (fs.readdir path))
  | .mkdir path =>
      some ((fs.mkdir path).1,
        match (fs.mkdir path).2, parts path with
        | .returned 0, [name] => .made name
        | r, _ => .outcome r)
  | .rmdir path => some ((fs.rmdir path).1, .outcome (fs.rmdir path).2)
  | .openFile path => some ((fs.openFile path).1, .outcome (fs.openFile path).2)
  | .read path size offset => some (fs, .content (fs.read path size offset))
  | .write w path data offset =>
      match fs.writeTarget path with
      | .error r => some (fs, .outcome r)
      | .ok o => fs.stepObj o (.write w data offset)
  | .truncate path length => some ((fs.truncate path length).1, .outcome (fs.truncate path length).2)
  | .unlink path => some (fs, .outcome (unlink path))
  | .inner o l => if o < fs.count ∧ l.isInner = true then fs.stepObj o l else none

end Gptfs

end OsHw.Gpt
