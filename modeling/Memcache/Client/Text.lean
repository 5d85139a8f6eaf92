import Memcache.Client.Facade

/-!
# The text protocol behind the client

A pool of client.rs hands out connections of connection.rs: a URL and a stream. A pool is
modelled by one connection, and `asciiBackend` runs the methods of ascii.rs on its stream.
`sets` and `deletes` of protocol/mod.rs are not in src/.
-/

namespace Memcache

structure Connection where
  url : Bytes
  stream : Stream

def Connection.lift {α : Type} (m : Session α) : EStateM MemcacheError Connection α := fun c =>
  match m c.stream with
  | .ok a s => .ok a { c with stream := s }
  | .error e s => .error e { c with stream := s }

@[simp] theorem Connection.lift_ok {α : Type} {m : Session α} {c : Connection} {a : α} {s : Stream}
    (h : m c.stream = .ok a s) : Connection.lift m c = .ok a { c with stream := s } := by
  simp [Connection.lift, h]

/-- A pool whose methods run the sessions of `ascii.rs` through `run`. Modelled from the spec
for `sets` and `deletes`: a pipelined batch applies its entries in order and answers each in
order, which is what `set` and `delete` called one after the other do. -/
def Backend.ofSessions {P : Type} (fromLine : Bytes → MemcacheError)
    (run : {α : Type} → Session α → EStateM MemcacheError P α) (url : P → Bytes) : Backend P where
  get key := run (Ascii.get fromLine key)
  gets keys := run (Ascii.gets fromLine keys)
  set key value expiration := run (Ascii.set fromLine key value expiration)
  sets entries expiration := entries.forM fun entry => run (Ascii.set fromLine entry.1 entry.2 expiration)
  cas key value expiration casId := run (Ascii.cas fromLine key value expiration casId)
  add key value expiration := run (Ascii.add fromLine key value expiration)
  replace key value expiration := run (Ascii.replace fromLine key value expiration)
  append key value := run (Ascii.append fromLine key value)
  prepend key value := run (Ascii.prepend fromLine key value)
  delete key := run (Ascii.delete fromLine key)
  deletes keys := keys.mapM fun key => run (Ascii.delete fromLine key)
  increment key amount := run (Ascii.increment fromLine key amount)
  decrement key amount := run (Ascii.decrement fromLine key amount)
  touch key expiration := run (Ascii.touch fromLine key expiration)
  flush := run (Ascii.flush fromLine)
  flushWithDelay delay := run (Ascii.flushWithDelay fromLine delay)
  version := run (Ascii.version fromLine)
  stats := run (Ascii.stats fromLine)
  url := url

def asciiBackend (fromLine : Bytes → MemcacheError) : Backend Connection :=
  Backend.ofSessions fromLine Connection.lift Connection.url

end Memcache
