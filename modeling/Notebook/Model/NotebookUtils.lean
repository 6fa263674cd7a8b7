import Notebook.Model.Messages

/-!
# `notebook_utils.cpp`: formatted messages

`vsnprintf` is described by what it stores and returns: the first `size - 1`
bytes of the rendered text, a terminator, and the rendered length.
-/

namespace Notebook

/-- `XPLAYER_BUFF_MAX_LEN`. -/
def bufferMaxLength : Nat := 256

/-- Contents of a zero-initialised buffer after `vsnprintf(buffer, size, ..)`,
where the buffer holds `capacity` bytes. -/
def vsnprintf (capacity size : Nat) (rendered : Bytes) : Bytes :=
  let stored := if size = 0 then [] else rendered.take (size - 1) ++ [0]
  stored ++ List.replicate (capacity - stored.length) 0

/-- `notebook_format_string` on the rendered text: the new value of `msg`, which
is also returned. -/
def notebookFormatString (allocates : Bool) (rendered : Bytes) : Bytes :=
  let buff := vsnprintf bufferMaxLength bufferMaxLength rendered
  let bytes := rendered.length
  if bytes < bufferMaxLength then buff.take bytes
  else if allocates then
    let cache := vsnprintf (bytes + 1) bytes rendered
    cache.take bytes
  else buff.take bufferMaxLength

/-- A `%s` argument: the bytes before the first terminator. -/
def cString (text : String) : Bytes :=
  (utf8 text).takeWhile (· ≠ 0)

/-- A message as the program formats it while the heap is not exhausted. -/
def formatted (rendered : Bytes) : Bytes :=
  notebookFormatString true rendered

end Notebook
