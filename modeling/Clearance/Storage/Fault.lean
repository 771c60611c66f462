import Clearance.Text.Quoted

/-!
# Why a stored text cannot be read

The faults of looking for a file, with their customary numbers and words.
-/

namespace Clearance.Storage

inductive Fault where
  | notFound
  | notDirectory
  | isDirectory
  | nameTooLong
  deriving DecidableEq, Repr

def Fault.number : Fault → Nat
  | .notFound => 2
  | .notDirectory => 20
  | .isDirectory => 21
  | .nameTooLong => 36

def Fault.title : Fault → String
  | .notFound => "No such file or directory"
  | .notDirectory => "Not a directory"
  | .isDirectory => "Is a directory"
  | .nameTooLong => "File name too long"

/-- The fault in words, with the path at which it was met. -/
def Fault.message (path : String) (fault : Fault) : String :=
  "[Errno " ++ toString fault.number ++ "] " ++ fault.title ++ ": " ++ Text.quoted path

end Clearance.Storage
