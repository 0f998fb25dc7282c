/-!
# System errors

A call that fails says so by an error number or, where the number has no say,
by a kind and a text. Numbers have fixed texts; four of them are kinds of
their own, which later decide how a failure is reported.
-/

namespace TreeShell

/-- The kinds of failure that are told apart. -/
inductive ErrorKind where
  | notFound
  | alreadyExists
  | directoryNotEmpty
  | notADirectory
  | unclassified
deriving DecidableEq

/-- A failed call: an error number, or a kind with a text of its own. -/
inductive IoError where
  | os (code : Int)
  | other (kind : ErrorKind) (text : String)
deriving DecidableEq

namespace IoError

@[match_pattern] abbrev notFound : IoError := .os 2
@[match_pattern] abbrev busy : IoError := .os 16
@[match_pattern] abbrev alreadyExists : IoError := .os 17
@[match_pattern] abbrev notADirectory : IoError := .os 20
@[match_pattern] abbrev isADirectory : IoError := .os 21
@[match_pattern] abbrev invalidArgument : IoError := .os 22
@[match_pattern] abbrev nameTooLong : IoError := .os 36
@[match_pattern] abbrev notEmpty : IoError := .os 39
@[match_pattern] abbrev linkLoop : IoError := .os 40

/-- A path with a null character cannot be handed to the system. -/
def nulInPath : IoError :=
  .other .unclassified "file name contained an unexpected NUL byte"

/-- A text file that is not UTF-8 throughout. -/
def notUtf8 : IoError :=
  .other .unclassified "stream did not contain valid UTF-8"

/-- Only a regular file can be copied byte by byte. -/
def notCopyable : IoError :=
  .other .unclassified "the source path is neither a regular file nor a symlink to a regular file"

/-- The system's words for an error number. -/
def codeText : Int → String
  | 0 => "Success"
  | 1 => "Operation not permitted"
  | 2 => "No such file or directory"
  | 4 => "Interrupted system call"
  | 5 => "Input/output error"
  | 9 => "Bad file descriptor"
  | 11 => "Resource temporarily unavailable"
  | 12 => "Cannot allocate memory"
  | 13 => "Permission denied"
  | 16 => "Device or resource busy"
  | 17 => "File exists"
  | 18 => "Invalid cross-device link"
  | 20 => "Not a directory"
  | 21 => "Is a directory"
  | 22 => "Invalid argument"
  | 24 => "Too many open files"
  | 26 => "Text file busy"
  | 27 => "File too large"
  | 28 => "No space left on device"
  | 30 => "Read-only file system"
  | 31 => "Too many links"
  | 36 => "File name too long"
  | 39 => "Directory not empty"
  | 40 => "Too many levels of symbolic links"
  | 95 => "Operation not supported"
  | 122 => "Disk quota exceeded"
  | code => "Unknown error " ++ toString code

/-- The kind of the failure. -/
def kind : IoError → ErrorKind
  | .os 2 => .notFound
  | .os 17 => .alreadyExists
  | .os 20 => .notADirectory
  | .os 39 => .directoryNotEmpty
  | .os _ => .unclassified
  | .other kind _ => kind

/-- The text of the failure. -/
def text : IoError → String
  | .os code => codeText code ++ " (os error " ++ toString code ++ ")"
  | .other _ text => text

@[simp] theorem kind_other (k : ErrorKind) (s : String) : (other k s).kind = k := rfl

@[simp] theorem text_other (k : ErrorKind) (s : String) : (other k s).text = s := rfl

end IoError

end TreeShell
