import Memcache.Protocol.Ascii

/-!
# The operations of a session

Every method of `AsciiProtocol` a client calls, as one type, with the reply each returns.
-/

namespace Memcache

inductive Command
  | get (key : Bytes)
  | gets (keys : List Bytes)
  | set (key : Bytes) (value : Value) (expiration : UInt32)
  | add (key : Bytes) (value : Value) (expiration : UInt32)
  | replace (key : Bytes) (value : Value) (expiration : UInt32)
  | append (key : Bytes) (value : Value)
  | prepend (key : Bytes) (value : Value)
  | cas (key : Bytes) (value : Value) (expiration : UInt32) (casId : UInt64)
  | delete (key : Bytes)
  | increment (key : Bytes) (amount : UInt64)
  | decrement (key : Bytes) (amount : UInt64)
  | touch (key : Bytes) (expiration : UInt32)
  | flush
  | flushWithDelay (delay : UInt32)
  | version
  | stats
  deriving DecidableEq, Repr

inductive Reply
  | unit
  | flag (b : Bool)
  | item (item : Option Item)
  | items (items : ItemMap)
  | number (n : UInt64)
  | text (s : Bytes)
  | stats (s : Stats)

def Command.key : Command → Option Bytes
  | .get key | .set key _ _ | .add key _ _ | .replace key _ _ | .append key _ | .prepend key _
  | .cas key _ _ _ | .delete key | .increment key _ | .decrement key _ | .touch key _ => some key
  | .gets _ | .flush | .flushWithDelay _ | .version | .stats => none

def Command.run (fromLine : Bytes → MemcacheError) : Command → Session Reply
  | .get key => .item <$> Ascii.get fromLine key
  | .gets keys => .items <$> Ascii.gets fromLine keys
  | .set key value expiration => (fun _ => .unit) <$> Ascii.set fromLine key value expiration
  | .add key value expiration => (fun _ => .unit) <$> Ascii.add fromLine key value expiration
  | .replace key value expiration =>
      (fun _ => .unit) <$> Ascii.replace fromLine key value expiration
  | .append key value => (fun _ => .unit) <$> Ascii.append fromLine key value
  | .prepend key value => (fun _ => .unit) <$> Ascii.prepend fromLine key value
  | .cas key value expiration casId => .flag <$> Ascii.cas fromLine key value expiration casId
  | .delete key => .flag <$> Ascii.delete fromLine key
  | .increment key amount => .number <$> Ascii.increment fromLine key amount
  | .decrement key amount => .number <$> Ascii.decrement fromLine key amount
  | .touch key expiration => .flag <$> Ascii.touch fromLine key expiration
  | .flush => (fun _ => .unit) <$> Ascii.flush fromLine
  | .flushWithDelay delay => (fun _ => .unit) <$> Ascii.flushWithDelay fromLine delay
  | .version => .text <$> Ascii.version fromLine
  | .stats => .stats <$> Ascii.stats fromLine

namespace Ascii

variable (fromLine : Bytes → MemcacheError) {key : Bytes} (s : Stream)

theorem store_key_too_long (h : 250 < key.length) (command : StoreCommand) (value : Value)
    (options : Options) : store fromLine command key value options s = .error keyTooLong s := by
  simp [store, h, throw, throwThe, MonadExceptOf.throw, EStateM.throw, bind, EStateM.bind]

theorem storeConcat_eq_store (command : StoreCommand) (key : Bytes) (value : Value) :
    storeConcat fromLine command key value = (fun _ => ()) <$> store fromLine command key value {} := by
  funext s
  by_cases h : 250 < key.length
  · simp [storeConcat, store_key_too_long fromLine s h, h, Functor.map, EStateM.map, throw, throwThe,
      MonadExceptOf.throw, EStateM.throw, bind, EStateM.bind]
  · simp [storeConcat, h, bind, EStateM.bind, pure, EStateM.pure]

end Ascii

end Memcache
