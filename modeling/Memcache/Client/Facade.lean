import Memcache.Protocol.Command

/-!
# The client facade

`Client` of client.rs: a list of pools, one per server, and a hash function. A call picks a
pool by the hash of its key and runs a session method on a connection leased from it. The
pools are the client's state; `Backend` is what a pool offers, the methods of
`ProtocolTrait` (protocol/mod.rs, not in src/) on a leased connection, lease included.

A `HashMap` hands out its entries in an order fixed by its random seed: `HashOrder` is any
arrangement of the keys, and the batch calls take one.
-/

namespace Memcache

structure Target where
  usizeBits : Nat

/-- `h as usize`. -/
def Target.asUsize (t : Target) (h : UInt64) : Nat := h.toNat % 2 ^ t.usizeBits

/-- The targets `Connectable` is implemented for: one URL (`String`, `&str`) or a vector of
them (`Vec<String>`, `Vec<&str>`). -/
inductive Connectable
  | single (url : Bytes)
  | vec (urls : List Bytes)

def Connectable.getUrls : Connectable → List Bytes
  | .single u => [u]
  | .vec us => us

/-- How a call of the client ends when it does not return: with its error, or with a panic
of the thread. -/
inductive Fault
  | error (e : MemcacheError)
  | panic
  deriving DecidableEq, Repr

structure Client (P : Type) where
  connections : List P
  hashFunction : Bytes → UInt64

abbrev ClientM (P : Type) := EStateM Fault (Client P)

structure Backend (P : Type) where
  get : Bytes → EStateM MemcacheError P (Option Item)
  gets : List Bytes → EStateM MemcacheError P ItemMap
  set : Bytes → Value → UInt32 → EStateM MemcacheError P Unit
  sets : List (Bytes × Value) → UInt32 → EStateM MemcacheError P Unit
  cas : Bytes → Value → UInt32 → UInt64 → EStateM MemcacheError P Bool
  add : Bytes → Value → UInt32 → EStateM MemcacheError P Unit
  replace : Bytes → Value → UInt32 → EStateM MemcacheError P Unit
  append : Bytes → Value → EStateM MemcacheError P Unit
  prepend : Bytes → Value → EStateM MemcacheError P Unit
  delete : Bytes → EStateM MemcacheError P Bool
  deletes : List Bytes → EStateM MemcacheError P (List Bool)
  increment : Bytes → UInt64 → EStateM MemcacheError P UInt64
  decrement : Bytes → UInt64 → EStateM MemcacheError P UInt64
  touch : Bytes → UInt32 → EStateM MemcacheError P Bool
  flush : EStateM MemcacheError P Unit
  flushWithDelay : UInt32 → EStateM MemcacheError P Unit
  version : EStateM MemcacheError P Bytes
  stats : EStateM MemcacheError P Stats
  url : P → Bytes

structure HashOrder where
  arrange : List Nat → List Nat
  perm : ∀ keys, (arrange keys).Perm keys

/-- The entries of a map in the order `o` hands them out. -/
def HashOrder.visit {α : Type} (o : HashOrder) (m : List (Nat × α)) : List (Nat × α) :=
  (o.arrange (m.map Prod.fst)).filterMap fun i => (m.lookup i).map (i, ·)

/-- `map.entry(i).or_default().push(a)`, the map as the list of its entries in the order they
were made. -/
def pushEntry {α : Type} : List (Nat × List α) → Nat → α → List (Nat × List α)
  | [], i, a => [(i, [a])]
  | (j, as) :: m, i, a => if j = i then (j, as ++ [a]) :: m else (j, as) :: pushEntry m i a

/-- The grouping loop of the batch calls; `none` where `index` panics. -/
def groupBy {α : Type} (index : α → Option Nat) (xs : List α) : Option (List (Nat × List α)) :=
  xs.foldlM (fun m x => (index x).map fun i => pushEntry m i x) []

/-- `HashMap::extend`: the new entries replace the old ones. -/
def ItemMap.extend (result items : ItemMap) : ItemMap := items ∪ result

namespace Client

variable {P : Type} (t : Target)

/-- The loop of `with_pool_size`: `Url::parse` and the pool's `build`, stopping at the first
error. -/
def openPools (openPool : Bytes → UInt32 → Except MemcacheError P) (size : UInt32) :
    List Bytes → Except MemcacheError (List P)
  | [] => .ok []
  | url :: urls => do
    let pool ← openPool url size
    let pools ← openPools openPool size urls
    pure (pool :: pools)

def withPoolSize (openPool : Bytes → UInt32 → Except MemcacheError P) (defaultHash : Bytes → UInt64)
    (target : Connectable) (size : UInt32) : Except MemcacheError (Client P) := do
  let connections ← openPools openPool size target.getUrls
  pure { connections, hashFunction := defaultHash }

def connect (openPool : Bytes → UInt32 → Except MemcacheError P) (defaultHash : Bytes → UInt64)
    (target : Connectable) : Except MemcacheError (Client P) :=
  withPoolSize openPool defaultHash target 1

/-- The index of `get_connection`; `none` where the remainder or the index panics. -/
def getConnection (c : Client P) (key : Bytes) : Option Nat :=
  let connectionsCount := c.connections.length
  if connectionsCount = 0 then none
  else
    let i := t.asUsize (c.hashFunction key) % connectionsCount
    if i < connectionsCount then some i else none

/-- `hash_key`; `none` where the remainder panics. -/
def hashKey (c : Client P) (key : Bytes) : Option Nat :=
  let connectionsCount := c.connections.length
  if connectionsCount = 0 then none else some (t.asUsize (c.hashFunction key) % connectionsCount)

def orPanic {α : Type} : Option α → ClientM P α
  | some a => pure a
  | none => throw .panic

/-- `self.connections[i].get()?` and a call on the leased connection. -/
def onPool {α : Type} (i : Nat) (m : EStateM MemcacheError P α) : ClientM P α := fun c =>
  match c.connections[i]? with
  | none => .error .panic c
  | some p =>
    match m p with
    | .ok a p' => .ok a { c with connections := c.connections.set i p' }
    | .error e p' => .error (.error e) { c with connections := c.connections.set i p' }

/-- `self.get_connection(key).get()?` and a call on the leased connection. -/
def onKey {α : Type} (key : Bytes) (m : EStateM MemcacheError P α) : ClientM P α := fun c =>
  match c.getConnection t key with
  | none => .error .panic c
  | some i => onPool i m c

variable (b : Backend P)

def get (key : Bytes) : ClientM P (Option Item) := onKey t key (b.get key)

def set (key : Bytes) (value : Value) (expiration : UInt32) : ClientM P Unit :=
  onKey t key (b.set key value expiration)

def cas (key : Bytes) (value : Value) (expiration : UInt32) (casId : UInt64) : ClientM P Bool :=
  onKey t key (b.cas key value expiration casId)

def add (key : Bytes) (value : Value) (expiration : UInt32) : ClientM P Unit :=
  onKey t key (b.add key value expiration)

def replace (key : Bytes) (value : Value) (expiration : UInt32) : ClientM P Unit :=
  onKey t key (b.replace key value expiration)

def append (key : Bytes) (value : Value) : ClientM P Unit := onKey t key (b.append key value)

def prepend (key : Bytes) (value : Value) : ClientM P Unit := onKey t key (b.prepend key value)

def delete (key : Bytes) : ClientM P Bool := onKey t key (b.delete key)

def increment (key : Bytes) (amount : UInt64) : ClientM P UInt64 :=
  onKey t key (b.increment key amount)

def decrement (key : Bytes) (amount : UInt64) : ClientM P UInt64 :=
  onKey t key (b.decrement key amount)

def touch (key : Bytes) (expiration : UInt32) : ClientM P Bool :=
  onKey t key (b.touch key expiration)

def gets (order : HashOrder) (keys : List Bytes) : ClientM P ItemMap := do
  let c ← EStateM.get
  let conKeys ← orPanic (groupBy (c.hashKey t) keys)
  (order.visit conKeys).foldlM (fun result (i, keys) => do
    let items ← onPool i (b.gets keys)
    pure (result.extend items)) ∅

def sets (order : HashOrder) (entries : List (Bytes × Value)) (expiration : UInt32) :
    ClientM P Unit := do
  let c ← EStateM.get
  let entryMap ← orPanic (groupBy (fun entry => c.hashKey t entry.1) entries)
  (order.visit entryMap).forM fun (i, entriesSubset) => onPool i (b.sets entriesSubset expiration)

/-- The inner loop of `deletes`: `for (deleted, key) in deleted.zip(keys_subset)`. -/
def insertDeleted (result : Finmap fun _ : Bytes => Bool) (deleted : List Bool) (keysSubset : List Bytes) :
    Finmap fun _ : Bytes => Bool :=
  (deleted.zip keysSubset).foldl (fun result (d, key) => result.insert key d) result

def deletes (order : HashOrder) (keys : List Bytes) : ClientM P (Finmap fun _ : Bytes => Bool) := do
  let c ← EStateM.get
  let conKeys ← orPanic (groupBy (c.hashKey t) keys)
  (order.visit conKeys).foldlM (fun result (i, keysSubset) => do
    let deleted ← onPool i (b.deletes keysSubset)
    pure (insertDeleted result deleted keysSubset)) ∅

/-- A call on every pool in turn, stopping at the first error. -/
def eachPool {α : Type} (m : EStateM MemcacheError P α) : ClientM P (List (Bytes × α)) := do
  let c ← EStateM.get
  (List.range c.connections.length).mapM fun i => do
    let a ← onPool i m
    let c ← EStateM.get
    pure ((c.connections.get? i).elim [] b.url, a)

def flush : ClientM P Unit := (fun _ => ()) <$> eachPool b b.flush

def flushWithDelay (delay : UInt32) : ClientM P Unit :=
  (fun _ => ()) <$> eachPool b (b.flushWithDelay delay)

def version : ClientM P (List (Bytes × Bytes)) := eachPool b b.version

def stats : ClientM P (List (Bytes × Stats)) := eachPool b b.stats

/-! ## Routing -/

theorem openPools_length {openPool : Bytes → UInt32 → Except MemcacheError P} {size : UInt32} :
    ∀ {urls : List Bytes} {pools : List P}, openPools openPool size urls = .ok pools →
      pools.length = urls.length
  | [], pools, h => by cases h; rfl
  | url :: urls, pools, h => by
    simp only [openPools, bind, Except.bind] at h
    split at h
    · cases h
    · split at h
      · cases h
      · cases h; simp [openPools_length ‹_›]

theorem getConnection_eq_hashKey (c : Client P) (key : Bytes) :
    c.getConnection t key = c.hashKey t key := by
  simp only [getConnection, hashKey]
  split
  · rfl
  · simp [Nat.mod_lt _ (Nat.pos_of_ne_zero ‹_›)]

theorem hashKey_lt {c : Client P} {key : Bytes} {i : Nat} (h : c.hashKey t key = some i) :
    i < c.connections.length := by
  simp only [hashKey] at h
  split at h
  · cases h
  · cases h; exact Nat.mod_lt _ (Nat.pos_of_ne_zero ‹_›)

theorem hashKey_isSome {c : Client P} (h : c.connections ≠ []) (key : Bytes) :
    (c.hashKey t key).isSome := by
  simp [hashKey, h]

/-- A client built from at least one URL routes every key, by `get_connection` and by
`hash_key` alike, to one of its pools. -/
theorem withPoolSize_routes_in_range {openPool : Bytes → UInt32 → Except MemcacheError P}
    {defaultHash : Bytes → UInt64} {target : Connectable} {size : UInt32} {c : Client P}
    (h : withPoolSize openPool defaultHash target size = .ok c) (hne : target.getUrls ≠ [])
    (key : Bytes) :
    ∃ i, c.getConnection t key = some i ∧ c.hashKey t key = some i ∧ i < c.connections.length := by
  simp only [withPoolSize, bind, Except.bind] at h
  split at h
  · cases h
  · cases h
    rename_i pools hpools
    have hlen := openPools_length hpools
    have hc : pools ≠ [] := fun e => hne (List.length_eq_zero.1 (hlen ▸ e ▸ rfl))
    obtain ⟨i, hi⟩ := Option.isSome_iff_exists.1 (hashKey_isSome t (c := ⟨pools, defaultHash⟩) hc key)
    exact ⟨i, by rw [getConnection_eq_hashKey, hi], hi, hashKey_lt t hi⟩

theorem withPoolSize_routes_localhost :
    withPoolSize (fun _ _ => .ok ()) (fun _ => 0) (.single (ascii "memcache://localhost:12345")) 1 =
      .ok (⟨[()], fun _ => 0⟩ : Client Unit) ∧
    (Connectable.single (ascii "memcache://localhost:12345")).getUrls ≠ [] ∧
    ∃ i, getConnection ⟨64⟩ (⟨[()], fun _ => 0⟩ : Client Unit) (ascii "foo") = some i ∧
      hashKey ⟨64⟩ (⟨[()], fun _ => 0⟩ : Client Unit) (ascii "foo") = some i ∧ i < [()].length := by
  have h : withPoolSize (fun _ _ => .ok ()) (fun _ => 0)
      (.single (ascii "memcache://localhost:12345")) 1 = .ok (⟨[()], fun _ => 0⟩ : Client Unit) := rfl
  have hne : (Connectable.single (ascii "memcache://localhost:12345")).getUrls ≠ [] := by
    simp [Connectable.getUrls]
  exact ⟨h, hne, withPoolSize_routes_in_range ⟨64⟩ h hne _⟩

/-- A vector of no URL gives a client with no pool, on which `get_connection` and `hash_key`
panic on the remainder by zero. -/
theorem withPoolSize_no_url :
    withPoolSize (fun _ _ => .ok ()) (fun _ => 0) (.vec []) 1 = .ok (⟨[], fun _ => 0⟩ : Client Unit) ∧
    getConnection ⟨64⟩ (⟨[], fun _ => 0⟩ : Client Unit) (ascii "foo") = none ∧
    hashKey ⟨64⟩ (⟨[], fun _ => 0⟩ : Client Unit) (ascii "foo") = none := ⟨rfl, rfl, rfl⟩

/-! ## Routing on 32- and 64-bit targets -/

@[simp] theorem asUsize_usize64 (h : UInt64) : (⟨64⟩ : Target).asUsize h = h.toNat :=
  Nat.mod_eq_of_lt h.toNat_lt_size

theorem hashKey_usize32_of_not_dvd (c : Client P) (hne : c.connections ≠ [])
    (hdvd : ¬c.connections.length ∣ 2 ^ 32) {key : Bytes} (hkey : c.hashFunction key = 4294967296) :
    c.hashKey ⟨32⟩ key = some 0 ∧ c.hashKey ⟨64⟩ key ≠ some 0 := by
  have h32 : (⟨32⟩ : Target).asUsize 4294967296 = 0 := rfl
  have h64 : (4294967296 : UInt64).toNat = 2 ^ 32 := rfl
  simpa [hashKey, hne, hkey, h32, h64, Nat.dvd_iff_mod_eq_zero] using hdvd

/-- With three pools, `get_connection` and `hash_key` send a key of hash `2 ^ 32` to pool 0 on
a 32-bit target, and to pool `2 ^ 32 % 3 = 1` on a 64-bit one. -/
theorem routes_split_across_targets :
    getConnection ⟨32⟩ (⟨[(), (), ()], fun _ => 4294967296⟩ : Client Unit) (ascii "foo") = some 0 ∧
    hashKey ⟨32⟩ (⟨[(), (), ()], fun _ => 4294967296⟩ : Client Unit) (ascii "foo") = some 0 ∧
    getConnection ⟨64⟩ (⟨[(), (), ()], fun _ => 4294967296⟩ : Client Unit) (ascii "foo") = some 1 ∧
    hashKey ⟨64⟩ (⟨[(), (), ()], fun _ => 4294967296⟩ : Client Unit) (ascii "foo") = some 1 ∧
    (4294967296 : UInt64).toNat % 3 = 1 := by
  have h32 := (@hashKey_usize32_of_not_dvd _ ⟨[(), (), ()], fun _ => 4294967296⟩ nofun (by decide)
    (ascii "foo") rfl).1
  have h64 : hashKey ⟨64⟩ (⟨[(), (), ()], fun _ => 4294967296⟩ : Client Unit) (ascii "foo") = some 1 := by decide
  exact ⟨(getConnection_eq_hashKey _ _ _).trans h32, h32, (getConnection_eq_hashKey _ _ _).trans h64, h64, rfl⟩

end Client

end Memcache
