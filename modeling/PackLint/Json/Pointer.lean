import PackLint.Json.Basic

/-! # JSON pointers

    A pointer leads from a value to one inside of it: a slash and an escaped key
    for each step.  A tilde in a key is written `~0` and a slash `~1`. -/

namespace PackLint.Json.Pointer

/-- The text with some characters in the place of each occurrence of one. -/
def replaceChar (c : Char) (replacement : List Char) (cs : List Char) : List Char :=
  cs.flatMap fun d => if d = c then replacement else [d]

/-- A key as it is written in a pointer: its tildes are replaced first, so that those that
    slashes are replaced by stay as they are. -/
def escape (cs : List Char) : List Char :=
  replaceChar '/' ['~', '1'] (replaceChar '~' ['~', '0'] cs)

/-- The pointer to the member with this name of the value that a pointer leads to. -/
def join (pointer key : String) : String :=
  pointer ++ "/" ++ String.ofList (escape key.toList)

end PackLint.Json.Pointer
