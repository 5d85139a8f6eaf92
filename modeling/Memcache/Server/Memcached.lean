import Memcache.Server.Request

/-!
# A memcached server

The server the spec runs a client against: a map from keys to items, each its data, flags and
cas id, with no clock. No item expires, and a `flush_all` with a delay other than zero leaves
the items, its time not come while the client runs (spec §8, S2); one without a delay, or
with delay zero, empties the map. `Memcached.handle` applies one request to the map and gives the reply;
`Memcached.serve` reads every request off what a client wrote and answers them in turn.
memcached refuses an item over its size limit; here the limit is what the length field of a
reply can count, so the server holds only items it can send back (`Memcached.fits`).
`version` and `stats` are not served.

`Memcached.expect` is what the spec says a call returns when the server holds a given map.
-/

namespace Memcache

structure Entry where
  data : Bytes
  flags : UInt32
  cas : UInt64
  deriving DecidableEq, Repr

def Entry.item (e : Entry) : Item := ⟨e.data, e.flags, none⟩

def Entry.casItem (e : Entry) : Item := ⟨e.data, e.flags, some e.cas⟩

structure Memcached where
  items : Finmap fun _ : Bytes => Entry
  /-- The cas id of the next store. -/
  nextCas : UInt64
  fits : ∀ key e, items.lookup key = some e → e.data.length < 2 ^ 64

namespace Memcached

def empty : Memcached := ⟨∅, 1, fun _ _ h => by simp at h⟩

variable (σ : Memcached)

def insert (key data : Bytes) (flags : UInt32) (h : data.length < 2 ^ 64) : Memcached where
  items := σ.items.insert key ⟨data, flags, σ.nextCas⟩
  nextCas := σ.nextCas + 1
  fits k e he := by
    by_cases hk : k = key
    · subst hk
      rw [Finmap.lookup_insert] at he
      cases he
      exact h
    · rw [Finmap.lookup_insert_of_ne _ hk] at he
      exact σ.fits k e he

def erase (key : Bytes) : Memcached where
  items := σ.items.erase key
  nextCas := σ.nextCas
  fits k e he := by
    by_cases hk : k = key
    · subst hk
      simp at he
    · rw [Finmap.lookup_erase_ne hk] at he
      exact σ.fits k e he

def clear : Memcached := ⟨∅, σ.nextCas, fun _ _ h => by simp at h⟩

/-- A store of `data` under `key`, refused if the item would not fit. -/
def put (key data : Bytes) (flags : UInt32) : Memcached × Bytes :=
  if h : data.length < 2 ^ 64 then (σ.insert key data flags h, ascii "STORED\r\n")
  else (σ, ascii "SERVER_ERROR object too large for cache\r\n")

def storeItem (command : StoreCommand) (key : Bytes) (flags : UInt32) (cas : Option UInt64)
    (data : Bytes) : Memcached × Bytes :=
  match command, σ.items.lookup key with
  | .set, _ => σ.put key data flags
  | .add, none => σ.put key data flags
  | .add, some _ => (σ, ascii "NOT_STORED\r\n")
  | .replace, none => (σ, ascii "NOT_STORED\r\n")
  | .replace, some _ => σ.put key data flags
  | .append, none | .prepend, none => (σ, ascii "NOT_STORED\r\n")
  | .append, some e => σ.put key (e.data ++ data) e.flags
  | .prepend, some e => σ.put key (data ++ e.data) e.flags
  | .cas, none => (σ, ascii "NOT_FOUND\r\n")
  | .cas, some e => if cas = some e.cas then σ.put key data flags else (σ, ascii "EXISTS\r\n")

def arith (key : Bytes) (f : UInt64 → UInt64) : Memcached × Bytes :=
  match σ.items.lookup key with
  | none => (σ, ascii "NOT_FOUND\r\n")
  | some e =>
    match parseU64 e.data with
    | none => (σ, ascii "CLIENT_ERROR cannot increment or decrement non-numeric value\r\n")
    | some n => ((σ.put key (decimal (f n).toNat) e.flags).1, decimal (f n).toNat ++ crlf)

def valueFields (withCas : Bool) (key : Bytes) (e : Entry) : List Bytes :=
  [ascii "VALUE", key, decimal e.flags.toNat, decimal e.data.length] ++
    if withCas then [decimal e.cas.toNat] else []

def valueBlock (withCas : Bool) (key : Bytes) (e : Entry) : Bytes :=
  joinSpace (valueFields withCas key e) ++ crlf ++ e.data ++ crlf

def retrieve (withCas : Bool) (keys : List Bytes) : Bytes :=
  (keys.filterMap fun key => (σ.items.lookup key).map (valueBlock withCas key)).flatten ++
    ascii "END\r\n"

/-- `decr` stops at zero. -/
def decrease (amount n : UInt64) : UInt64 := if amount ≤ n then n - amount else 0

def handle : Request → Memcached × Bytes
  | .get keys => (σ, σ.retrieve false keys)
  | .gets keys => (σ, σ.retrieve true keys)
  | .store command key flags _ cas data => σ.storeItem command key flags cas data
  | .delete key =>
    if (σ.items.lookup key).isSome then (σ.erase key, ascii "DELETED\r\n") else (σ, ascii "NOT_FOUND\r\n")
  | .incr key amount => σ.arith key (· + amount)
  | .decr key amount => σ.arith key (decrease amount)
  | .touch key _ =>
    (σ, if (σ.items.lookup key).isSome then ascii "TOUCHED\r\n" else ascii "NOT_FOUND\r\n")
  | .flushAll delay => (if delay.getD 0 = 0 then σ.clear else σ, ascii "OK\r\n")
  | .version | .stats => (σ, ascii "ERROR\r\n")

end Memcached

/-- Every request of `input`, served in order, at most `fuel` of them. A request that does not
decode is answered `ERROR`, and the server reads no further. -/
def Memcached.serve : Nat → Bytes → Memcached → Memcached × Bytes
  | 0, _, σ => (σ, [])
  | fuel + 1, input, σ =>
    match decodeRequest input with
    | none => (σ, if input = [] then [] else ascii "ERROR\r\n")
    | some (request, rest) =>
      let more := serve fuel rest (σ.handle request).1
      (more.1, (σ.handle request).2 ++ more.2)

def gathered (find : Bytes → Option Entry) (keys : List Bytes) : ItemMap :=
  keys.foldl (fun result key => ((find key).map fun e => result.insert key e.casItem).getD result) ∅

theorem lookup_gathered_foldl (find : Bytes → Option Entry) (keys : List Bytes) (r : ItemMap) (k : Bytes) :
    (keys.foldl (fun result key => ((find key).map fun e => result.insert key e.casItem).getD result) r).lookup k =
      if k ∈ keys then ((find k).map Entry.casItem).or (r.lookup k) else r.lookup k := by
  induction keys generalizing r with
  | nil => simp
  | cons key keys ih =>
    rw [List.foldl_cons, ih]
    by_cases hk : key = k
    · subst hk
      cases h : find key <;> simp [h, Finmap.lookup_insert]
    · have hlook : (((find key).map fun e => r.insert key e.casItem).getD r).lookup k = r.lookup k := by
        cases find key <;> simp [Finmap.lookup_insert_of_ne _ (Ne.symm hk)]
      simp [hlook, hk, Ne.symm hk]

theorem lookup_gathered (find : Bytes → Option Entry) (keys : List Bytes) (k : Bytes) :
    (gathered find keys).lookup k = if k ∈ keys then (find k).map Entry.casItem else none := by
  rw [gathered, lookup_gathered_foldl]
  simp

namespace Memcached

variable (σ : Memcached)

def getsResult (keys : List Bytes) : ItemMap := gathered σ.items.lookup keys

/-- What a counter call returns: the new number, or `NOT_FOUND` as the status error. The spec
says nothing of an item that holds no number. -/
def counted (key : Bytes) (f : UInt64 → UInt64) : Option (Except MemcacheError Reply) :=
  match σ.items.lookup key with
  | none => some (.error (.ofStatus ResponseStatus.keyNotFound.code))
  | some e => (parseU64 e.data).map fun n => .ok (.number (f n))

/-- What the spec says an operation returns when the server holds `σ`: `get` the item, `gets`
the items of the keys asked for with their cas ids, `delete` and `touch` whether the key was
there, the counters the new number. It says nothing of what `add`, `replace`, `append` and
`prepend` return. -/
def expect : Command → Option (Except MemcacheError Reply)
  | .get key => some (.ok (.item ((σ.items.lookup key).map Entry.item)))
  | .gets keys => some (.ok (.items (σ.getsResult keys)))
  | .set .. | .flush | .flushWithDelay _ => some (.ok .unit)
  | .cas key _ _ casId => some (.ok (.flag ((σ.items.lookup key).any (·.cas = casId))))
  | .delete key | .touch key _ => some (.ok (.flag (σ.items.lookup key).isSome))
  | .increment key amount => σ.counted key (· + amount)
  | .decrement key amount => σ.counted key (decrease amount)
  | _ => none

theorem lookup_getsResult (keys : List Bytes) (k : Bytes) :
    (σ.getsResult keys).lookup k = if k ∈ keys then (σ.items.lookup k).map Entry.casItem else none :=
  lookup_gathered _ keys k

end Memcached

end Memcache
