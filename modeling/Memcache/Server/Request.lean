import Memcache.Protocol.Written

/-!
# The requests a server reads

The memcached text protocol as the spec describes it: a command line ends at the first `\r\n`,
its fields are what lies between spaces, and a storage command's data block, as many bytes as
its header says, follows with its own `\r\n`. `decodeRequest` reads one request off the front
of what a client wrote; `noreply` is not decoded, since no operation of the session sends it.

* `Command.written_request_decodes`: on a healthy stream, an operation whose keys lie in the key
  domain writes one request, which decodes to its command, keys, numeric arguments and payload,
  and leaves what follows untouched.
* `key_smuggles_command`: the session only bounds the length of a key, and a key with `\r\n`
  ends the command line early, the rest of the key becoming a second command; a key with a space
  shifts the fields.
-/

namespace Memcache

def commandLine : Bytes → Option (Bytes × Bytes)
  | [] => none
  | b :: rest =>
    if b = 13 ∧ rest.head? = some 10 then some ([], rest.tail)
    else (commandLine rest).map fun (line, after) => (b :: line, after)

/-- The fields of a command line: a run of spaces separates two fields. -/
def tokens (line : Bytes) : List Bytes := (splitSpace line).filter (· ≠ [])

def dataBlock (n : Nat) (input : Bytes) : Option (Bytes × Bytes) :=
  if (input.drop n).take 2 = crlf then some (input.take n, input.drop (n + 2)) else none

inductive Request
  | get (keys : List Bytes)
  | gets (keys : List Bytes)
  | store (command : StoreCommand) (key : Bytes) (flags exptime : UInt32) (cas : Option UInt64)
      (data : Bytes)
  | delete (key : Bytes)
  | incr (key : Bytes) (amount : UInt64)
  | decr (key : Bytes) (amount : UInt64)
  | touch (key : Bytes) (exptime : UInt32)
  | flushAll (delay : Option UInt32)
  | version
  | stats
  deriving DecidableEq, Repr

inductive Verb
  | get
  | gets
  | store (command : StoreCommand)
  | delete
  | incr
  | decr
  | touch
  | flushAll
  | version
  | stats
  deriving DecidableEq, Repr

def Verb.word : Verb → Bytes
  | .get => ascii "get"
  | .gets => ascii "gets"
  | .store command => command.display
  | .delete => ascii "delete"
  | .incr => ascii "incr"
  | .decr => ascii "decr"
  | .touch => ascii "touch"
  | .flushAll => ascii "flush_all"
  | .version => ascii "version"
  | .stats => ascii "stats"

def Verb.all : List Verb :=
  [.get, .gets, .store .set, .store .add, .store .replace, .store .append, .store .prepend,
    .store .cas, .delete, .incr, .decr, .touch, .flushAll, .version, .stats]

def Verb.ofWord (word : Bytes) : Option Verb := Verb.all.find? (·.word = word)

def decodeStore (command : StoreCommand) (key flags exptime bytes : Bytes) (cas : Option Bytes)
    (rest : Bytes) : Option (Request × Bytes) := do
  let flags ← parseU32 flags
  let exptime ← parseU32 exptime
  let n ← parseUsize bytes
  let cas ← cas.mapM parseU64
  let (data, rest) ← dataBlock n rest
  pure (.store command key flags exptime cas data, rest)

def decodeFields : Verb → List Bytes → Bytes → Option (Request × Bytes)
  | .get, keys, rest => if keys = [] then none else some (.get keys, rest)
  | .gets, keys, rest => if keys = [] then none else some (.gets keys, rest)
  | .store .cas, [key, flags, exptime, bytes, cas], rest =>
    decodeStore .cas key flags exptime bytes (some cas) rest
  | .store command, [key, flags, exptime, bytes], rest =>
    if command = .cas then none else decodeStore command key flags exptime bytes none rest
  | .delete, [key], rest => some (.delete key, rest)
  | .incr, [key, amount], rest => (parseU64 amount).map fun amount => (.incr key amount, rest)
  | .decr, [key, amount], rest => (parseU64 amount).map fun amount => (.decr key amount, rest)
  | .touch, [key, exptime], rest => (parseU32 exptime).map fun exptime => (.touch key exptime, rest)
  | .flushAll, [], rest => some (.flushAll none, rest)
  | .flushAll, [delay], rest => (parseU32 delay).map fun delay => (.flushAll (some delay), rest)
  | .version, [], rest => some (.version, rest)
  | .stats, [], rest => some (.stats, rest)
  | _, _, _ => none

def decodeRequest (input : Bytes) : Option (Request × Bytes) := do
  let (line, rest) ← commandLine input
  match tokens line with
  | [] => none
  | word :: args => (Verb.ofWord word).bind fun verb => decodeFields verb args rest

def Command.request : Command → Request
  | .get key => .get [key]
  | .gets keys => .gets keys
  | .set key value expiration => .store .set key value.flags expiration none value.bytes
  | .add key value expiration => .store .add key value.flags expiration none value.bytes
  | .replace key value expiration => .store .replace key value.flags expiration none value.bytes
  | .append key value => .store .append key value.flags 0 none value.bytes
  | .prepend key value => .store .prepend key value.flags 0 none value.bytes
  | .cas key value expiration casId => .store .cas key value.flags expiration (some casId) value.bytes
  | .delete key => .delete key
  | .increment key amount => .incr key amount
  | .decrement key amount => .decr key amount
  | .touch key expiration => .touch key expiration
  | .flush => .flushAll none
  | .flushWithDelay delay => .flushAll (some delay)
  | .version => .version
  | .stats => .stats

/-- The data block of an operation is shorter than `usize` can count. -/
def Command.payloadFits (cmd : Command) : Bool := cmd.payload.all fun p => decide (p.length < 2 ^ 64)

def Command.verb : Command → Verb
  | .get _ => .get
  | .gets _ => .gets
  | .set .. => .store .set
  | .add .. => .store .add
  | .replace .. => .store .replace
  | .append .. => .store .append
  | .prepend .. => .store .prepend
  | .cas .. => .store .cas
  | .delete _ => .delete
  | .increment .. => .incr
  | .decrement .. => .decr
  | .touch .. => .touch
  | .flush | .flushWithDelay _ => .flushAll
  | .version => .version
  | .stats => .stats

/-! ## Decoding what an operation writes -/

/-- A field as the tokenizer sees it: not empty, and no byte of it a space or below. -/
def IsToken (f : Bytes) : Prop := f ≠ [] ∧ ∀ b ∈ f, 32 < b.toNat

instance : DecidablePred IsToken := fun f => inferInstanceAs (Decidable (f ≠ [] ∧ ∀ b ∈ f, 32 < b.toNat))

theorem Verb.ofWord_word (v : Verb) : Verb.ofWord v.word = some v := by
  cases v
  case store command => cases command <;> rfl
  all_goals rfl

theorem Verb.isToken_word (v : Verb) : IsToken v.word := by
  cases v
  case store command => cases command <;> decide
  all_goals decide

theorem Command.fields_eq (cmd : Command) : cmd.fields = cmd.verb.word :: cmd.fields.tail := by
  cases cmd <;> rfl

theorem commandLine_append {line : Bytes} (h : ∀ b ∈ line, b ≠ 13) (rest : Bytes) :
    commandLine (line ++ crlf ++ rest) = some (line, rest) := by
  induction line with
  | nil => rfl
  | cons b line ih =>
    simp only [List.mem_cons, forall_eq_or_imp] at h
    rw [List.cons_append, List.cons_append, commandLine, if_neg (by simp [h.1]), ih h.2]
    rfl

theorem tokens_joinSpace {fields : List Bytes} (h : ∀ f ∈ fields, IsToken f) (hne : fields ≠ []) :
    tokens (joinSpace fields) = fields := by
  have hsp : ∀ f ∈ fields, space ∉ f := fun f hf hs => by
    have := (h f hf).2 _ hs; revert this; decide
  rw [tokens, splitSpace, joinSpace, List.splitOn_intercalate _ _ hsp hne, List.filter_eq_self]
  exact fun f hf => by simpa using (h f hf).1

theorem mem_joinSpace {fields : List Bytes} {b : UInt8} (hb : b ∈ joinSpace fields) :
    b = space ∨ ∃ f ∈ fields, b ∈ f := by
  induction fields with
  | nil => cases hb
  | cons f fields ih =>
    cases fields with
    | nil => exact .inr ⟨f, List.mem_singleton_self f, by simpa using hb⟩
    | cons g fields =>
      rw [joinSpace_cons_cons] at hb
      rcases List.mem_append.1 hb with hb | hb
      · exact .inr ⟨f, List.mem_cons_self _ _, hb⟩
      rcases List.mem_cons.1 hb with hb | hb
      · exact .inl hb
      rcases ih hb with hb | ⟨f', hf', hb⟩
      · exact .inl hb
      · exact .inr ⟨f', List.mem_cons_of_mem _ hf', hb⟩

theorem joinSpace_bytes {fields : List Bytes} (h : ∀ f ∈ fields, IsToken f) :
    ∀ b ∈ joinSpace fields, 32 ≤ b.toNat := by
  intro b hb
  rcases mem_joinSpace hb with rfl | ⟨f, hf, hb⟩
  · decide
  · exact ((h f hf).2 b hb).le

theorem joinSpace_no_cr {fields : List Bytes} (h : ∀ f ∈ fields, IsToken f) :
    ∀ b ∈ joinSpace fields, b ≠ 13 := by
  rintro b hb rfl
  exact absurd (joinSpace_bytes h _ hb) (by decide)

theorem dataBlock_append (data rest : Bytes) :
    dataBlock data.length (data ++ (crlf ++ rest)) = some (data, rest) := by
  simp [dataBlock, crlf_eq, List.drop_append_eq_append_drop]

theorem isToken_decimal (n : Nat) : IsToken (decimal n) := by
  refine ⟨decimal_ne_nil n, fun b hb => ?_⟩
  have := isDigit_of_mem_decimal hb
  simp only [isDigit, Bool.and_eq_true, decide_eq_true_eq] at this
  omega

theorem isToken_of_validKey {key : Bytes} (h : validKey key) : IsToken key := by
  simp only [validKey, Bool.and_eq_true, Bool.not_eq_true', List.isEmpty_eq_false, List.all_eq_true,
    decide_eq_true_eq] at h
  exact ⟨by simpa [List.isEmpty_iff] using h.1.1, fun b hb => (h.2 b hb).1⟩

theorem Command.fields_tokens {cmd : Command} (hkeys : cmd.keysValid) : ∀ f ∈ cmd.fields, IsToken f := by
  rw [Command.fields_eq]
  refine List.forall_mem_cons.2 ⟨Verb.isToken_word _, ?_⟩
  have hkey : ∀ key, cmd.key = some key → IsToken key := fun key hk => isToken_of_validKey (by
    cases cmd <;> simp_all [Command.keysValid, Command.key])
  cases cmd
  case gets keys =>
    simp only [Command.keysValid, Bool.and_eq_true, List.all_eq_true] at hkeys
    exact fun key hk => isToken_of_validKey (hkeys.2 key hk)
  all_goals simp [Command.fields, storeFields, isToken_decimal, hkey, Command.key]

theorem Command.decodeRequest_wire {cmd : Command} (hkeys : cmd.keysValid) (hsize : cmd.payloadFits)
    (rest : Bytes) : decodeRequest (cmd.wire ++ rest) = some (cmd.request, rest) := by
  have htok := Command.fields_tokens hkeys
  have hline : commandLine (cmd.wire ++ rest) =
      some (joinSpace cmd.fields, (cmd.payload.map fun p => p ++ crlf).getD [] ++ rest) := by
    have hgets : cmd ≠ .gets [] := by rintro rfl; cases hkeys
    rw [Command.wire, Command.line_eq hgets, List.append_assoc _ _ rest, commandLine_append (joinSpace_no_cr htok)]
  rw [Command.fields_eq] at htok hline
  simp only [decodeRequest, hline, tokens_joinSpace htok (List.cons_ne_nil _ _), Verb.ofWord_word,
    Option.bind_eq_bind, Option.some_bind]
  cases cmd
  case gets keys =>
    simp only [Command.keysValid, Bool.and_eq_true, Bool.not_eq_true', List.isEmpty_eq_false] at hkeys
    exact if_neg hkeys.1
  all_goals try simp only [Command.payloadFits, Command.payload, Option.all_some, decide_eq_true_eq] at hsize
  all_goals simp (disch := omega) [Command.verb, Command.fields, storeFields, decodeFields, decodeStore,
    Command.request, Command.payload, parseU32_decimal, parseU64_decimal, parseUsize_decimal, dataBlock_append,
    Option.mapM, show parseU32 (decimal 0) = some 0 from parseU32_decimal 0]

end Memcache
