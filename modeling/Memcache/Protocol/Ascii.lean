import Memcache.Protocol.Session
import Mathlib.Data.Finmap

/-!
# `AsciiProtocol`

The text protocol session of `protocol/ascii.rs`, one definition per method, and one for what a
method reads once it has written its request (`storeReply`, `getReply` and so on). `fromLine` is
`MemcacheError::from(String)`, which the methods apply to an error line of the server; it is
not in src/ (error.rs leaves it as a TODO), so the methods take it as a parameter.

The `loop`s of `gets` and `stats` are given one round per chunk of input, more than they can
use: every round that does not return consumes a line.
-/

namespace Memcache

/-- Modelled from the spec: `value.rs` is not in src/. A value as the adapters of §6 see it,
its bytes and flags and the cas id `gets` reports; `write_to` writes the bytes with
`write_all`. -/
structure Item where
  bytes : Bytes
  flags : UInt32
  cas : Option UInt64
  deriving DecidableEq, Repr

structure Value where
  bytes : Bytes
  flags : UInt32
  deriving DecidableEq, Repr

abbrev ItemMap := Finmap fun _ : Bytes => Item

abbrev Stats := Finmap fun _ : Bytes => Bytes

structure Options where
  noreply : Bool := false
  exptime : UInt32 := 0
  cas : Option UInt64 := none

inductive StoreCommand
  | cas
  | set
  | add
  | replace
  | append
  | prepend
  deriving DecidableEq, Repr

def StoreCommand.display : StoreCommand → Bytes
  | .set => ascii "set"
  | .add => ascii "add"
  | .replace => ascii "replace"
  | .append => ascii "append"
  | .prepend => ascii "prepend"
  | .cas => ascii "cas"

def isMemcacheError (s : Bytes) : Bool :=
  s == ascii "ERROR\r\n" || startsWith s "CLIENT_ERROR" || startsWith s "SERVER_ERROR"

namespace Ascii

variable (fromLine : Bytes → MemcacheError)

def storeReply : Session Bool := do
  let (s, _) ← Session.readLine
  if isMemcacheError s then throw (fromLine s)
  else if s = ascii "STORED\r\n" then return true
  else if s = ascii "NOT_STORED\r\n" then return false
  else if s = ascii "EXISTS\r\n" then throw (.ofStatus ResponseStatus.keyExists.code)
  else if s = ascii "NOT_FOUND\r\n" then throw (.ofStatus ResponseStatus.keyNotFound.code)
  else throw invalidServerResponse

def store (command : StoreCommand) (key : Bytes) (value : Value) (options : Options) :
    Session Bool := do
  if key.length > 250 then throw keyTooLong
  let header := command.display ++ [space] ++ key ++ [space] ++ decimal value.flags.toNat ++
    [space] ++ decimal options.exptime.toNat ++ [space] ++ decimal value.bytes.length
  let header ← if command = .cas then
      match options.cas with
      | none => throw (.clientError (ascii "cas command should have a casid"))
      | some cas => pure (header ++ [space] ++ decimal cas.toNat)
    else pure header
  let header := if options.noreply then header ++ ascii " noreply" else header
  let header := header ++ crlf
  let _ ← Session.write header
  Session.writeAll value.bytes
  let _ ← Session.write crlf
  Session.flush
  if options.noreply then return true
  storeReply fromLine

def versionReply : Session Bytes := do
  let (s, _) ← Session.readLine
  if isMemcacheError s then throw (fromLine s)
  else if !startsWith s "VERSION" then throw (.serverError 0)
  let s := trimStartMatches (ascii "VERSION ") s
  return trimEndMatches crlf s

def version : Session Bytes := do
  let _ ← Session.write (ascii "version\r\n")
  Session.flush
  versionReply fromLine

/-- What `flush` and `flush_with_delay` read. -/
def okReply : Session Unit := do
  let (s, _) ← Session.readLine
  if isMemcacheError s then throw (fromLine s)
  else if s ≠ ascii "OK\r\n" then throw invalidServerResponse

def flush : Session Unit := do
  let _ ← Session.write (ascii "flush_all\r\n")
  Session.flush
  okReply fromLine

def flushWithDelay (delay : UInt32) : Session Unit := do
  Session.writeFmt [ascii "flush_all ", decimal delay.toNat, crlf]
  Session.flush
  okReply fromLine

def getReply (key : Bytes) : Session (Option Item) := do
  let s ← Session.readLineChecked
  if isMemcacheError s then throw (fromLine s)
  else if startsWith s "END" then return none
  else if !startsWith s "VALUE" then throw invalidServerResponse
  match splitSpace (trimEndMatches crlf s) with
  | [_, name, flags, length] =>
    if key ≠ name then throw invalidServerResponse
    let flags ← Session.parsed (parseU32 flags)
    let length ← Session.parsed (parseUsize length)
    let buffer ← Session.readExact length
    let s ← Session.readLineChecked
    if s ≠ crlf then throw invalidServerResponse
    let s ← Session.readLineChecked
    if s ≠ ascii "END\r\n" then throw invalidServerResponse
    return some ⟨buffer, flags, none⟩
  | _ => throw invalidServerResponse

def get (key : Bytes) : Session (Option Item) := do
  Session.writeFmt [ascii "get ", key, crlf]
  getReply fromLine key

theorem get_long_key :
    get fromLine (List.replicate 251 97) { input := bytesIn (ascii "END\r\n") } =
      .ok none { input := [], output := ascii "get " ++ List.replicate 251 97 ++ crlf } := rfl

/-- The `loop` of `gets`, for at most `fuel` rounds. -/
def getsLoop : Nat → ItemMap → Session ItemMap
  | 0, result => pure result
  | fuel + 1, result => do
    let s ← Session.readLineChecked
    if isMemcacheError s then throw (fromLine s)
    else if startsWith s "END" then return result
    else if !startsWith s "VALUE" then throw invalidServerResponse
    match splitSpace (trimEndMatches crlf s) with
    | [_, key, flags, length, cas] =>
      let flags ← Session.parsed (parseU32 flags)
      let length ← Session.parsed (parseUsize length)
      let cas ← Session.parsed (parseU64 cas)
      let buffer ← Session.readExact length
      let result := result.insert key ⟨buffer, flags, some cas⟩
      let s ← Session.readLineChecked
      if s ≠ crlf then throw invalidServerResponse
      getsLoop fuel result
    | _ => throw invalidServerResponse

def getsReply : Session ItemMap := do
  let st ← EStateM.get
  getsLoop fromLine (st.input.length + 1) ∅

def gets (keys : List Bytes) : Session ItemMap := do
  Session.writeFmt [ascii "gets ", joinSpace keys, crlf]
  getsReply fromLine

theorem gets_unrequested_key :
    gets fromLine [ascii "a"] { input := bytesIn (ascii "VALUE b 0 1 7\r\nx\r\nEND\r\n") } =
      .ok ((∅ : ItemMap).insert (ascii "b") ⟨ascii "x", 0, some 7⟩)
        { input := [], output := ascii "gets a\r\n" } := rfl

/-- The `match` of `cas` on what `store` returns: the status errors become `false`. -/
def recoverStatus (m : Session Bool) : Session Bool := fun s =>
  match m s with
  | .ok t s => .ok t s
  | .error (.serverError e) s =>
    if e = ResponseStatus.keyExists.code ∨ e = ResponseStatus.keyNotFound.code then .ok false s
    else .error (.serverError e) s
  | .error e s => .error e s

def cas (key : Bytes) (value : Value) (expiration : UInt32) (cas : UInt64) : Session Bool :=
  recoverStatus (store fromLine .cas key value { exptime := expiration, cas := some cas })

/-- `set`, `add` and `replace`: `store` with the expiration, its `bool` dropped. -/
def storeExpiring (command : StoreCommand) (key : Bytes) (value : Value) (expiration : UInt32) :
    Session Unit :=
  (fun _ => ()) <$> store fromLine command key value { exptime := expiration }

def set := storeExpiring fromLine .set

def add := storeExpiring fromLine .add

def replace := storeExpiring fromLine .replace

theorem add_replace_not_stored :
    add fromLine (ascii "foo") ⟨ascii "baz", 0⟩ 0 { input := bytesIn (ascii "NOT_STORED\r\n") } =
      .ok () { input := [], output := ascii "add foo 0 0 3\r\nbaz\r\n" } ∧
    replace fromLine (ascii "foo") ⟨ascii "baz", 0⟩ 0 { input := bytesIn (ascii "NOT_STORED\r\n") } =
      .ok () { input := [], output := ascii "replace foo 0 0 3\r\nbaz\r\n" } := ⟨rfl, rfl⟩

/-- `append` and `prepend`: the key length checked, then `store` with the default options. -/
def storeConcat (command : StoreCommand) (key : Bytes) (value : Value) : Session Unit := do
  if key.length > 250 then throw keyTooLong
  (fun _ => ()) <$> store fromLine command key value {}

def append := storeConcat fromLine .append

def prepend := storeConcat fromLine .prepend

def flagReply (yes : Bytes) : Session Bool := do
  let (s, _) ← Session.readLine
  if isMemcacheError s then throw (fromLine s)
  else if s = yes then return true
  else if s = ascii "NOT_FOUND\r\n" then return false
  else throw invalidServerResponse

/-- `delete` and `touch`: a keyed command whose reply is `yes` or `NOT_FOUND`. -/
def keyedFlag (key : Bytes) (request : List Bytes) (yes : Bytes) : Session Bool := do
  if key.length > 250 then throw keyTooLong
  Session.writeFmt request
  Session.flush
  flagReply fromLine yes

def delete (key : Bytes) : Session Bool :=
  keyedFlag fromLine key [ascii "delete ", key, crlf] (ascii "DELETED\r\n")

def touch (key : Bytes) (expiration : UInt32) : Session Bool :=
  keyedFlag fromLine key [ascii "touch ", key, [space], decimal expiration.toNat, crlf]
    (ascii "TOUCHED\r\n")

def counterReply : Session UInt64 := do
  let (s, _) ← Session.readLine
  if isMemcacheError s then throw (fromLine s)
  else if s = ascii "NOT_FOUND\r\n" then throw (.ofStatus 1)
  else
    match parseU64 (trimEndMatches crlf s) with
    | some n => return n
    | none => throw invalidServerResponse

/-- `increment` and `decrement`, which differ in the literal their request starts with. -/
def counter (command key : Bytes) (amount : UInt64) : Session UInt64 := do
  if key.length > 250 then throw keyTooLong
  Session.writeFmt [command, key, [space], decimal amount.toNat, crlf]
  counterReply fromLine

def increment := counter fromLine (ascii "incr ")

def decrement := counter fromLine (ascii "decr ")

/-- The `loop` of `stats`, for at most `fuel` rounds. -/
def statsLoop : Nat → Stats → Session Stats
  | 0, result => pure result
  | fuel + 1, result => do
    let s ← Session.readLineChecked
    if isMemcacheError s then throw (fromLine s)
    else if startsWith s "END" then return result
    else if !startsWith s "STAT" then throw invalidServerResponse
    match splitSpace (trimEndMatches crlf s) with
    | _ :: key :: _ :: _ =>
      let value := trimStartMatches (ascii "STAT " ++ key) s
      statsLoop fuel (result.insert key value)
    | _ => throw invalidServerResponse

def statsReply : Session Stats := do
  let st ← EStateM.get
  statsLoop fromLine (st.input.length + 1) ∅

def stats : Session Stats := do
  let _ ← Session.write (ascii "stats\r\n")
  Session.flush
  statsReply fromLine

theorem stats_value_untrimmed :
    stats fromLine { input := bytesIn (ascii "STAT pid 123\r\nEND\r\n") } =
      .ok ((∅ : Stats).insert (ascii "pid") (ascii " 123\r\n"))
        { input := [], output := ascii "stats\r\n" } := rfl

def auth (username password : Bytes) : Session Unit :=
  set fromLine (ascii "auth") ⟨username ++ [space] ++ password, 0⟩ 0

end Ascii

end Memcache
