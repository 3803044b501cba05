/-! # Why a file operation fails -/

namespace ImportAtlas

/-- The reasons for which a file operation is refused. -/
inductive Cause where
  | notFound
  | alreadyExists
  | notDirectory
  | isDirectory
  | brokenPipe
  | nameTooLong
  | tooManyLinks
  /-- A path holds a null character, which no name can hold. -/
  | nullInPath
  /-- An argument for another program holds a null character. -/
  | nullInArgument
  /-- A file that should hold text is not well-formed UTF-8. -/
  | notText
deriving DecidableEq, Repr

/-- The words for a cause; those that the operating system reports carry its number. -/
def Cause.message : Cause → String
  | .notFound => "No such file or directory (os error 2)"
  | .alreadyExists => "File exists (os error 17)"
  | .notDirectory => "Not a directory (os error 20)"
  | .isDirectory => "Is a directory (os error 21)"
  | .brokenPipe => "Broken pipe (os error 32)"
  | .nameTooLong => "File name too long (os error 36)"
  | .tooManyLinks => "Too many levels of symbolic links (os error 40)"
  | .nullInPath => "file name contained an unexpected NUL byte"
  | .nullInArgument => "nul byte found in provided data"
  | .notText => "stream did not contain valid UTF-8"

end ImportAtlas
