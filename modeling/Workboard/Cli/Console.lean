import Workboard.Cli.Path

/-! Computations that use files.

A `Console` asks for one thing at a time and goes on with the answer. What answers is a disk: the real one
in the program itself, or one that is described by its contents. -/

namespace Workboard.Cli

/-- Why a file cannot be used. -/
structure FileError where
  description : String
  /-- The system's number for it. -/
  code : Nat
  deriving DecidableEq, Repr

namespace FileError

def notFound : FileError := ⟨"No such file or directory", 2⟩

def alreadyThere : FileError := ⟨"File exists", 17⟩

def notFolder : FileError := ⟨"Not a directory", 20⟩

def isFolder : FileError := ⟨"Is a directory", 21⟩

def nameTooLong : FileError := ⟨"File name too long", 36⟩

def text (e : FileError) : String := s!"{e.description} (os error {e.code})"

end FileError

inductive Console (α : Type) where
  | done (result : α)
  /-- Asks for the text of a file. -/
  | read (path : String) (next : Except FileError String → Console α)
  /-- Puts a text into a file. -/
  | write (path text : String) (next : Except FileError Unit → Console α)
  /-- Makes a folder in one that exists. -/
  | makeFolder (path : String) (next : Except FileError Unit → Console α)
  /-- Asks whether there is a folder. -/
  | isFolder (path : String) (next : Bool → Console α)

namespace Console

def bind : Console α → (α → Console β) → Console β
  | done a, f => f a
  | read path next, f => .read path fun r => (next r).bind f
  | write path text next, f => .write path text fun r => (next r).bind f
  | makeFolder path next, f => .makeFolder path fun r => (next r).bind f
  | isFolder path next, f => .isFolder path fun r => (next r).bind f

instance : Monad Console where
  pure := done
  bind := bind

/-- Makes a folder of the first path, and the folders of the further paths above it where they are
    missing. -/
def makeFolders : List String → Console (Except FileError Unit)
  | [] => .done (.ok ())
  | path :: above =>
    if path = "" then .done (.ok ())
    else
      let orThere (e : FileError) : Console (Except FileError Unit) :=
        .isFolder path fun there => .done (if there then .ok () else .error e)
      .makeFolder path fun
        | .ok _ => .done (.ok ())
        | .error e =>
          if e.code = FileError.notFound.code then
            (makeFolders above).bind fun
              | .error e => .done (.error e)
              | .ok _ =>
                .makeFolder path fun
                  | .ok _ => .done (.ok ())
                  | .error e => orThere e
          else orThere e

end Console

end Workboard.Cli
