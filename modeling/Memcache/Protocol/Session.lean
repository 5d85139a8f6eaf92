import Memcache.Wire.Stream

/-!
# Protocol sessions

A session operation runs on one connection's transport and ends with a value or a
`MemcacheError`, the transport changed either way. The error type is the one `ascii.rs` is
written against: client errors carry a message and server errors a status code, which
`AsciiProtocol::cas` matches on. `read_line` takes its bytes off the input and hands back the
line only when they are UTF-8 (`appendToString`).
-/

namespace Memcache

inductive ParseError
  | int
  deriving DecidableEq, Repr

inductive MemcacheError
  | iOError (e : IoError)
  | clientError (msg : Bytes)
  | serverError (code : UInt16)
  | parseError (e : ParseError)
  /-- Modelled from the spec: a lease of a pool that fails (§3, §4.2), which `conn.get()?`
  passes on; r2d2's error and its conversion are not in src/. -/
  | poolError
  deriving DecidableEq, Repr

/-- Modelled from the spec: `protocol::ResponseStatus` is not in src/; §4.3.2 gives the codes
of the two statuses the text protocol raises. -/
inductive ResponseStatus
  | keyNotFound
  | keyExists
  deriving DecidableEq, Repr

def ResponseStatus.code : ResponseStatus → UInt16
  | .keyNotFound => 1
  | .keyExists => 2

/-- `MemcacheError::from(u16)`, in the form `AsciiProtocol::cas` matches. -/
def MemcacheError.ofStatus (code : UInt16) : MemcacheError := .serverError code

def invalidServerResponse : MemcacheError := .clientError (ascii "invalid server response")

def keyTooLong : MemcacheError := .clientError (ascii "key is too long")

abbrev Session := EStateM MemcacheError Stream

namespace Session

def write (buf : Bytes) : Session Nat := fun s =>
  match s.write buf with
  | (.ok n, s) => .ok n s
  | (.error e, s) => .error (.iOError e) s

def writeAll (buf : Bytes) : Session Unit := fun s =>
  match s.writeAll buf with
  | (.ok (), s) => .ok () s
  | (.error e, s) => .error (.iOError e) s

/-- `write!`, with `?`: one `write_all` for each literal piece and each argument. -/
def writeFmt (pieces : List Bytes) : Session Unit := pieces.forM writeAll

/-- `Write::flush`, with `?`: it does nothing on the TCP and Unix streams. -/
def flush : Session Unit := pure ()

/-- The guard of `append_to_string` under `read_line`: bytes that are not UTF-8 leave the string
as it was, and the call fails with the error of the read, or `InvalidData` where the read had
none. -/
def appendToString (line : Bytes) (err : Option IoError) : Bytes × Option IoError :=
  if validUtf8 line then (line, err) else ([], some (err.getD ⟨.invalidData⟩))

/-- `BufRead::read_line` into a new string: the string, and the error of the call if any. The
bytes are taken off the input either way. -/
def readLine : Session (Bytes × Option IoError) := fun s =>
  let line := readLineChunks s.input
  .ok (appendToString line.1 line.2.1) { s with input := line.2.2 }

def readLineChecked : Session Bytes := do
  let (line, err) ← readLine
  match err with
  | none => pure line
  | some e => throw (.iOError e)

def readExact (n : Nat) : Session Bytes := fun s =>
  match readExactChunks n s.input with
  | (.ok bs, input) => .ok bs { s with input }
  | (.error e, input) => .error (.iOError e) { s with input }

theorem appendToString_of_valid {line : Bytes} (h : validUtf8 line) (err : Option IoError) :
    appendToString line err = (line, err) := if_pos h

theorem appendToString_none {line line' : Bytes} {err : Option IoError}
    (h : appendToString line err = (line', none)) : validUtf8 line ∧ err = none ∧ line' = line := by
  unfold appendToString at h
  split at h
  · cases h; exact ⟨‹_›, rfl, rfl⟩
  · cases h

theorem appendToString_some {line line' : Bytes} {err : Option IoError} {e : IoError}
    (h : appendToString line err = (line', some e)) : line' = [] ∨ line' = line ∧ err = some e := by
  unfold appendToString at h
  split at h <;> cases h
  · exact .inr ⟨rfl, rfl⟩
  · exact .inl rfl

/-- `?` on the result of `str::parse`. -/
def parsed {α : Type} : Option α → Session α
  | some a => pure a
  | none => throw (.parseError .int)

end Session

end Memcache
