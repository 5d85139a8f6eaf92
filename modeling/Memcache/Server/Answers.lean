import Memcache.Server.Memcached

/-!
# What the session reads back

Against the server of `Server/Memcached.lean`, every reply reader of `AsciiProtocol` reads the
whole reply to its request, and no more: a value block by its length, whatever bytes the data
holds, a `gets` reply block by block until `END`. `Command.reply_served` says so for every
operation whose keys lie in the key domain, with what it returns: what the spec says
(`Memcached.expect`), wherever the spec says anything. A `stats` reply is read line by line to
its `END`, each value with the space before it and the `\r\n` after it (`statsReply_lines`).
-/

namespace Memcache

open Ascii Session


theorem readLine_line {l : Bytes} (h : 10 ∉ l) (hu : validUtf8 l) (rest : List Chunk) (s : Stream) :
    readLine { s with input := bytesIn (l ++ crlf) ++ rest } = .ok (l ++ crlf, none) { s with input := rest } := by
  have := readLineChunks_line (l ++ [13]) rest (by simpa using h)
  rw [List.append_assoc, show ([13] ++ [10] : Bytes) = crlf from rfl] at this
  simp only [readLine, this, appendToString_of_valid (validUtf8_append hu (by decide : validUtf8 crlf))]

theorem readLineChecked_line {l : Bytes} (h : 10 ∉ l) (hu : validUtf8 l) (rest : List Chunk) (s : Stream) :
    readLineChecked { s with input := bytesIn (l ++ crlf) ++ rest } = .ok (l ++ crlf) { s with input := rest } := by
  simp only [readLineChecked, bind, EStateM.bind, readLine_line h hu]
  rfl

theorem readLineChecked_crlf (rest : List Chunk) (s : Stream) :
    readLineChecked { s with input := bytesIn crlf ++ rest } = .ok crlf { s with input := rest } := rfl

theorem readLineChecked_end (rest : List Chunk) (s : Stream) :
    readLineChecked { s with input := bytesIn (ascii "END\r\n") ++ rest } = .ok (ascii "END\r\n") { s with input := rest } := rfl

theorem readExact_bytes (bs : Bytes) (rest : List Chunk) (s : Stream) :
    readExact bs.length { s with input := bytesIn bs ++ rest } = .ok bs { s with input := rest } := by
  simp only [readExact, readExactChunks_bytes]

theorem trimEndMatches_crlf_append {l : Bytes} (h : 10 ∉ l) : trimEndMatches crlf (l ++ crlf) = l := by
  have hnp : crlf.reverse.isPrefixOf l.reverse = false := by
    rw [crlf_eq]
    cases hl : l.reverse with
    | nil => rfl
    | cons b t =>
      have hb : b ≠ 10 := fun hb => h (List.mem_reverse.1 (hl ▸ hb ▸ List.mem_cons_self b t))
      simp [List.isPrefixOf, Ne.symm hb]
  have hlen : (l ++ crlf).reverse.length = l.reverse.length + 1 + 1 := by simp [crlf_eq]
  rw [trimEndMatches, trimStartMatches, hlen, trimStartMatchesAux, List.reverse_append, if_pos (by simp [crlf_eq]),
    List.drop_left' (by simp [crlf_eq]), trimStartMatchesAux_of_not_prefix hnp, List.reverse_reverse]

@[simp] theorem parsed_some {α : Type} (a : α) : parsed (some a) = pure a := rfl

theorem isMemcacheError_value (x : Bytes) : isMemcacheError (ascii "VALUE" ++ x) = false :=
  isMemcacheError_cons (ascii "ALUE" ++ x) (by decide)

theorem startsWith_value_value (x : Bytes) : startsWith (ascii "VALUE" ++ x) "VALUE" = true :=
  List.isPrefixOf_iff_prefix.2 (List.prefix_append _ _)

theorem valueFields_tokens {withCas : Bool} {key : Bytes} (hkey : IsToken key) (e : Entry) :
    ∀ f ∈ Memcached.valueFields withCas key e, IsToken f := by
  cases withCas <;> simp [Memcached.valueFields, hkey, isToken_decimal, show IsToken (ascii "VALUE") by decide]

theorem valueLine_facts (withCas : Bool) {key : Bytes} (hkey : IsToken key) (hu : validUtf8 key) (e : Entry) :
    10 ∉ joinSpace (Memcached.valueFields withCas key e) ∧ validUtf8 (joinSpace (Memcached.valueFields withCas key e)) ∧
    isMemcacheError (joinSpace (Memcached.valueFields withCas key e) ++ crlf) = false ∧
    startsWith (joinSpace (Memcached.valueFields withCas key e) ++ crlf) "END" = false ∧
    startsWith (joinSpace (Memcached.valueFields withCas key e) ++ crlf) "VALUE" = true ∧
    splitSpace (trimEndMatches crlf (joinSpace (Memcached.valueFields withCas key e) ++ crlf)) =
      Memcached.valueFields withCas key e := by
  have hv : joinSpace (Memcached.valueFields withCas key e) ++ crlf = ascii "VALUE" ++
      (space :: joinSpace ((Memcached.valueFields withCas key e).tail) ++ crlf) := by
    cases withCas <;> simp [Memcached.valueFields]
  have hlf : 10 ∉ joinSpace (Memcached.valueFields withCas key e) := fun h =>
    absurd (joinSpace_bytes (valueFields_tokens hkey e) _ h) (by decide)
  have hvalid := @validUtf8_joinSpace (Memcached.valueFields withCas key e) (by
    cases withCas <;> simp [Memcached.valueFields, hu, validUtf8_decimal, show validUtf8 (ascii "VALUE") by decide])
  refine ⟨hlf, hvalid, by rw [hv]; exact isMemcacheError_value _, by rw [hv]; rfl, by rw [hv]; exact startsWith_value_value _, ?_⟩
  rw [trimEndMatches_crlf_append hlf, splitSpace, joinSpace,
    List.splitOn_intercalate _ _ _ (by cases withCas <;> simp [Memcached.valueFields])]
  exact fun f hf hs => absurd ((valueFields_tokens hkey e f hf).2 _ hs) (by decide)

variable (fromLine : Bytes → MemcacheError)

theorem getReply_block {key : Bytes} (hkey : IsToken key) (hu : validUtf8 key) (e : Entry) (hfit : e.data.length < 2 ^ 64)
    (s : Stream) (rest : List Chunk) :
    getReply fromLine key { s with input := bytesIn (Memcached.valueBlock false key e ++ ascii "END\r\n") ++ rest } =
      .ok (some e.item) { s with input := rest } := by
  have hin : bytesIn (Memcached.valueBlock false key e ++ ascii "END\r\n") ++ rest =
      bytesIn (joinSpace (Memcached.valueFields false key e) ++ crlf) ++ (bytesIn e.data ++
        (bytesIn crlf ++ (bytesIn (ascii "END\r\n") ++ rest))) := by
    simp [Memcached.valueBlock]
  obtain ⟨hlf, hvu, hmem, hend, hval, hsplit⟩ := valueLine_facts false hkey hu e
  rw [hin, getReply, bind_ok (readLineChecked_line hlf hvu _ _), hsplit]
  simp only [hmem, hend, hval, Bool.false_eq_true, if_false, Bool.not_true]
  simp only [Memcached.valueFields, Bool.false_eq_true, if_false, List.cons_append, List.nil_append,
    List.append_nil, ne_eq, not_true_eq_false, pure_bind, parseU32_decimal, parseUsize_decimal hfit, parsed_some]
  rw [bind_ok (readExact_bytes _ _ _), bind_ok (readLineChecked_crlf _ _)]
  simp only [ne_eq, not_true_eq_false, if_false, pure_bind]
  rw [bind_ok (readLineChecked_end _ _)]
  rfl

theorem getsLoop_block {key : Bytes} (hkey : IsToken key) (hu : validUtf8 key) (e : Entry) (hfit : e.data.length < 2 ^ 64)
    (fuel : Nat) (result : ItemMap) (s : Stream) (rest : List Chunk) :
    getsLoop fromLine (fuel + 1) result { s with input := bytesIn (Memcached.valueBlock true key e) ++ rest } =
      getsLoop fromLine fuel (result.insert key e.casItem) { s with input := rest } := by
  have hin : bytesIn (Memcached.valueBlock true key e) ++ rest =
      bytesIn (joinSpace (Memcached.valueFields true key e) ++ crlf) ++ (bytesIn e.data ++ (bytesIn crlf ++ rest)) := by
    simp [Memcached.valueBlock]
  obtain ⟨hlf, hvu, hmem, hend, hval, hsplit⟩ := valueLine_facts true hkey hu e
  rw [hin, getsLoop, bind_ok (readLineChecked_line hlf hvu _ _), hsplit]
  simp only [hmem, hend, hval, Bool.false_eq_true, if_false, Bool.not_true]
  simp only [Memcached.valueFields, if_true, List.cons_append, List.nil_append, pure_bind, parseU32_decimal,
    parseUsize_decimal hfit, parseU64_decimal, parsed_some]
  rw [bind_ok (readExact_bytes _ _ _), bind_ok (readLineChecked_crlf _ _)]
  simp only [ne_eq, not_true_eq_false, if_false, pure_bind]
  rfl

theorem getsLoop_end (fuel : Nat) (result : ItemMap) (s : Stream) (rest : List Chunk) :
    getsLoop fromLine (fuel + 1) result { s with input := bytesIn (ascii "END\r\n") ++ rest } =
      .ok result { s with input := rest } := rfl

theorem length_le_flatten {α : Type} (f : α → Bytes) (hf : ∀ a, f a ≠ []) :
    ∀ xs : List α, xs.length ≤ (xs.map f).flatten.length
  | [] => le_refl _
  | x :: xs => by
    have := length_le_flatten f hf xs
    have := List.length_pos_of_ne_nil (hf x)
    simp only [List.length_cons, List.map_cons, List.flatten_cons, List.length_append]
    omega

def casBlocks (blocks : List (Bytes × Entry)) : Bytes :=
  (blocks.map fun b => Memcached.valueBlock true b.1 b.2).flatten

theorem getsLoop_blocks (blocks : List (Bytes × Entry))
    (hb : ∀ b ∈ blocks, (IsToken b.1 ∧ validUtf8 b.1) ∧ b.2.data.length < 2 ^ 64) (fuel : Nat) (hfuel : blocks.length < fuel)
    (result : ItemMap) (s : Stream) (rest : List Chunk) :
    getsLoop fromLine fuel result { s with input := bytesIn (casBlocks blocks ++ ascii "END\r\n") ++ rest } =
      .ok (blocks.foldl (fun r b => r.insert b.1 b.2.casItem) result) { s with input := rest } := by
  induction blocks generalizing fuel result with
  | nil =>
    obtain ⟨fuel, rfl⟩ : ∃ f, fuel = f + 1 := ⟨fuel - 1, by simp at hfuel; omega⟩
    exact getsLoop_end fromLine fuel result s rest
  | cons b blocks ih =>
    obtain ⟨fuel, rfl⟩ : ∃ f, fuel = f + 1 := ⟨fuel - 1, by simp at hfuel; omega⟩
    have h1 := hb b (List.mem_cons_self _ _)
    rw [casBlocks, List.map_cons, List.flatten_cons, List.append_assoc, bytesIn_append, List.append_assoc,
      getsLoop_block fromLine h1.1.1 h1.1.2 b.2 h1.2]
    exact ih (fun b hb' => hb b (List.mem_cons_of_mem _ hb')) fuel (by simpa using hfuel) _

def Memcached.blocks (σ : Memcached) (keys : List Bytes) : List (Bytes × Entry) :=
  keys.filterMap fun key => (σ.items.lookup key).map (key, ·)

theorem Memcached.foldl_blocks (σ : Memcached) (keys : List Bytes) (init : ItemMap) :
    (σ.blocks keys).foldl (fun r b => r.insert b.1 b.2.casItem) init =
      keys.foldl (fun result key => ((σ.items.lookup key).map fun e => result.insert key e.casItem).getD result)
        init := by
  induction keys generalizing init with
  | nil => rfl
  | cons key keys ih =>
    rw [Memcached.blocks, List.filterMap_cons, List.foldl_cons]
    cases h : σ.items.lookup key <;> simp [← ih, Memcached.blocks, h]

theorem Memcached.retrieve_true (σ : Memcached) (keys : List Bytes) :
    σ.retrieve true keys = casBlocks (σ.blocks keys) ++ ascii "END\r\n" := by
  simp [Memcached.retrieve, Memcached.blocks, casBlocks, List.map_filterMap, Option.map_map, Function.comp_def]

theorem getsReply_served (σ : Memcached) {keys : List Bytes} (hkeys : ∀ k ∈ keys, IsToken k ∧ validUtf8 k) (s : Stream)
    (rest : List Chunk) :
    getsReply fromLine { s with input := bytesIn (σ.retrieve true keys) ++ rest } =
      .ok (σ.getsResult keys) { s with input := rest } := by
  have hb : ∀ b ∈ σ.blocks keys, (IsToken b.1 ∧ validUtf8 b.1) ∧ b.2.data.length < 2 ^ 64 := by
    intro b hb
    obtain ⟨key, hk, he⟩ := List.mem_filterMap.1 hb
    obtain ⟨e, he', rfl⟩ := Option.map_eq_some'.1 he
    exact ⟨hkeys key hk, σ.fits key e he'⟩
  have hfuel : (σ.blocks keys).length < (bytesIn (σ.retrieve true keys) ++ rest).length + 1 := by
    have := length_le_flatten (fun b => Memcached.valueBlock true b.1 b.2)
      (fun b => by simp [Memcached.valueBlock, crlf_eq]) (σ.blocks keys)
    rw [Memcached.retrieve_true]
    simp only [casBlocks, bytesIn, List.length_append, List.length_map] at this ⊢
    omega
  rw [getsReply, bind_ok (show EStateM.get _ = _ from rfl)]
  dsimp only
  rw [Memcached.retrieve_true] at hfuel ⊢
  rw [getsLoop_blocks fromLine _ hb _ hfuel, Memcached.foldl_blocks]
  rfl

theorem getReply_served (σ : Memcached) {key : Bytes} (hkey : IsToken key) (hu : validUtf8 key) (s : Stream) (rest : List Chunk) :
    getReply fromLine key { s with input := bytesIn (σ.retrieve false [key]) ++ rest } =
      .ok ((σ.items.lookup key).map Entry.item) { s with input := rest } := by
  cases h : σ.items.lookup key with
  | none => simp only [Memcached.retrieve, List.filterMap_cons, h, List.filterMap_nil, List.flatten_nil]; rfl
  | some e =>
    simp only [Memcached.retrieve, List.filterMap_cons, h, Option.map_some', List.filterMap_nil, List.flatten_cons,
      List.flatten_nil, List.append_nil]
    exact getReply_block fromLine hkey hu e (σ.fits key e h) s rest

theorem counterReply_number (n : UInt64) (s : Stream) (rest : List Chunk) :
    counterReply fromLine { s with input := bytesIn (decimal n.toNat ++ crlf) ++ rest } = .ok n { s with input := rest } := by
  have hlf : 10 ∉ decimal n.toNat := fun h => absurd (isDigit_of_mem_decimal h) (by decide)
  obtain ⟨d, ds, hd⟩ := List.exists_cons_of_ne_nil (decimal_ne_nil n.toNat)
  have hdig : isDigit d := isDigit_of_mem_decimal (hd ▸ List.mem_cons_self d ds)
  have hmem : isMemcacheError (decimal n.toNat ++ crlf) = false := by
    rw [hd, List.cons_append]
    exact isMemcacheError_cons _ (by refine ⟨?_, ?_, ?_⟩ <;> rintro rfl <;> revert hdig <;> decide)
  have hnf : decimal n.toNat ++ crlf ≠ ascii "NOT_FOUND\r\n" := by
    rw [hd]; intro h; injection h with h; subst h; revert hdig; decide
  rw [counterReply, bind_ok (readLine_line hlf (validUtf8_decimal _) _ _)]
  simp only [hmem, Bool.false_eq_true, if_false, hnf, trimEndMatches_crlf_append hlf, parseU64_decimal]
  rfl

def resultOf {σ α : Type} : Except MemcacheError α → σ → EStateM.Result MemcacheError σ α
  | .ok a, s => .ok a s
  | .error e, s => .error e s

theorem Command.reply_served {cmd : Command} (hkeys : cmd.keysValid) (hutf : cmd.keysUtf8) (hsize : cmd.payloadFits)
    (σ : Memcached) (s : Stream) :
    ∃ r, cmd.reply fromLine { s with input := bytesIn (σ.handle cmd.request).2 } = resultOf r { s with input := [] } ∧
      ∀ r', σ.expect cmd = some r' → r = r' := by
  have hkey : ∀ key, cmd.key = some key → IsToken key := fun key hk => isToken_of_validKey (by
    cases cmd <;> simp_all [Command.keysValid, Command.key])
  have hfit : ∀ p, cmd.payload = some p → p.length < 2 ^ 64 := fun p hp => by
    simpa [Command.payloadFits, hp] using hsize
  cases cmd with
  | get key =>
    refine ⟨.ok (.item ((σ.items.lookup key).map Entry.item)), ?_, fun r' h => by cases h; rfl⟩
    have := getReply_served fromLine σ (hkey key rfl) (by simpa [Command.keysUtf8, Command.key] using hutf) s []
    rw [List.append_nil] at this
    exact map_ok _ this
  | gets keys =>
    refine ⟨.ok (.items (σ.getsResult keys)), ?_, fun r' h => by cases h; rfl⟩
    have hks : ∀ k ∈ keys, IsToken k ∧ validUtf8 k := fun k hk => ⟨isToken_of_validKey (by
      simp only [Command.keysValid, Bool.and_eq_true, List.all_eq_true] at hkeys; exact hkeys.2 k hk),
      by simp only [Command.keysUtf8, List.all_eq_true] at hutf; exact hutf k hk⟩
    have := getsReply_served fromLine σ hks s []
    rw [List.append_nil] at this
    exact map_ok _ this
  | set key value expiration =>
    refine ⟨.ok .unit, ?_, fun r' h => by cases h; rfl⟩
    simp only [Command.request, Memcached.handle, Memcached.storeItem, Memcached.put, dif_pos (hfit _ rfl)]
    rfl
  | add key value expiration =>
    cases h : σ.items.lookup key with
    | none =>
      refine ⟨.ok .unit, ?_, fun r' h => by cases h⟩
      simp only [Command.request, Memcached.handle, Memcached.storeItem, h, Memcached.put, dif_pos (hfit _ rfl)]
      rfl
    | some e =>
      refine ⟨.ok .unit, ?_, fun r' h => by cases h⟩
      simp only [Command.request, Memcached.handle, Memcached.storeItem, h]
      rfl
  | replace key value expiration =>
    cases h : σ.items.lookup key with
    | none =>
      refine ⟨.ok .unit, ?_, fun r' h => by cases h⟩
      simp only [Command.request, Memcached.handle, Memcached.storeItem, h]
      rfl
    | some e =>
      refine ⟨.ok .unit, ?_, fun r' h => by cases h⟩
      simp only [Command.request, Memcached.handle, Memcached.storeItem, h, Memcached.put, dif_pos (hfit _ rfl)]
      rfl
  | append key value | prepend key value =>
    cases h : σ.items.lookup key with
    | none =>
      refine ⟨.ok .unit, ?_, fun r' h => by cases h⟩
      simp only [Command.request, Memcached.handle, Memcached.storeItem, h]
      rfl
    | some e =>
      simp only [Command.request, Memcached.handle, Memcached.storeItem, h, Memcached.put]
      split
      · exact ⟨.ok .unit, rfl, fun r' h => by cases h⟩
      · exact ⟨.error (fromLine (ascii "SERVER_ERROR object too large for cache\r\n")), rfl, fun r' h => by cases h⟩
  | cas key value expiration casId =>
    cases h : σ.items.lookup key with
    | none =>
      refine ⟨.ok (.flag false), ?_, fun r' hr => by simp [Memcached.expect, h] at hr; exact hr⟩
      simp only [Command.request, Memcached.handle, Memcached.storeItem, h]
      rfl
    | some e =>
      by_cases hc : some casId = some e.cas
      · refine ⟨.ok (.flag true), ?_, fun r' hr => by simp_all [Memcached.expect]⟩
        simp only [Command.request, Memcached.handle, Memcached.storeItem, h, hc, if_true, Memcached.put,
          dif_pos (hfit _ rfl)]
        rfl
      · have hne : e.cas ≠ casId := fun he => hc (by rw [he])
        refine ⟨.ok (.flag false), ?_, fun r' hr => by simp [Memcached.expect, h, hne] at hr; exact hr⟩
        simp only [Command.request, Memcached.handle, Memcached.storeItem, h, hc, if_false]
        rfl
  | delete key | touch key _ =>
    cases h : σ.items.lookup key with
    | none =>
      refine ⟨.ok (.flag false), ?_, fun r' hr => by simp [Memcached.expect, h] at hr; exact hr⟩
      simp only [Command.request, Memcached.handle, h, Option.isSome_none, Bool.false_eq_true, if_false]
      rfl
    | some e =>
      refine ⟨.ok (.flag true), ?_, fun r' hr => by simp [Memcached.expect, h] at hr; exact hr⟩
      simp only [Command.request, Memcached.handle, h, Option.isSome_some, if_true]
      rfl
  | increment key amount | decrement key amount =>
    cases h : σ.items.lookup key with
    | none =>
      refine ⟨.error (.ofStatus ResponseStatus.keyNotFound.code), ?_,
        fun r' hr => by simp [Memcached.expect, Memcached.counted, h] at hr; exact hr⟩
      simp only [Command.request, Memcached.handle, Memcached.arith, h]
      rfl
    | some e =>
      cases hp : parseU64 e.data with
      | none =>
        refine ⟨.error (fromLine (ascii "CLIENT_ERROR cannot increment or decrement non-numeric value\r\n")), ?_,
          fun r' hr => by simp [Memcached.expect, Memcached.counted, h, hp] at hr⟩
        simp only [Command.request, Memcached.handle, Memcached.arith, h, hp]
        rfl
      | some n =>
        refine ⟨.ok (.number _), ?_, fun r' hr => by simp [Memcached.expect, Memcached.counted, h, hp] at hr; exact hr⟩
        simp only [Command.request, Memcached.handle, Memcached.arith, h, hp]
        rw [← List.append_nil (bytesIn _)]
        exact map_ok _ (counterReply_number fromLine _ s [])
  | flush | flushWithDelay _ => exact ⟨.ok .unit, rfl, fun r' hr => by cases hr; rfl⟩
  | version | stats => exact ⟨.error (fromLine (ascii "ERROR\r\n")), rfl, fun r' hr => by cases hr⟩

/-! ## Stats replies -/

def statLine (name value : Bytes) : Bytes := ascii "STAT " ++ name ++ [space] ++ value

def statLines (entries : List (Bytes × Bytes)) : Bytes :=
  (entries.map fun e => statLine e.1 e.2 ++ crlf).flatten ++ ascii "END\r\n"

theorem statsLoop_line {name value : Bytes} (hname : space ∉ name ∧ 10 ∉ name ∧ validUtf8 name)
    (hvalue : 10 ∉ value ∧ validUtf8 value)
    (fuel : Nat) (result : Stats) (s : Stream) (rest : List Chunk) :
    statsLoop fromLine (fuel + 1) result { s with input := bytesIn (statLine name value ++ crlf) ++ rest } =
      statsLoop fromLine fuel (result.insert name (space :: value ++ crlf)) { s with input := rest } := by
  have hlf : 10 ∉ statLine name value := by
    have : 10 ∉ ascii "STAT " ∧ (10 : UInt8) ≠ space := by decide
    simp [statLine, this, hname.2.1, hvalue.1]
  have hu : validUtf8 (statLine name value) :=
    validUtf8_append (validUtf8_append (validUtf8_append (by decide) hname.2.2) (by decide)) hvalue.2
  have hsplit : splitSpace (trimEndMatches crlf (statLine name value ++ crlf)) =
      ascii "STAT" :: name :: value.splitOn space := by
    rw [trimEndMatches_crlf_append hlf, splitSpace, statLine, List.append_assoc, List.append_assoc,
      show ascii "STAT " = ascii "STAT" ++ [space] from rfl, List.append_assoc, List.singleton_append,
      List.splitOn, List.splitOnP_first _ _ (by decide) _ (by simp), List.singleton_append,
      List.splitOnP_first _ _ (fun x hx (hs : (x == space) = true) => hname.1 (beq_iff_eq.1 hs ▸ hx)) _ (by simp)]
    rfl
  have hvalue' : trimStartMatches (ascii "STAT " ++ name) (statLine name value ++ crlf) = space :: value ++ crlf := by
    have hline : statLine name value ++ crlf = (ascii "STAT " ++ name) ++ (space :: value ++ crlf) := by
      simp [statLine]
    have hlen : (statLine name value ++ crlf).length = (ascii "STAT " ++ name).length + (value.length + 3) := by
      simp [statLine, crlf_eq]; omega
    have hpre : (!(ascii "STAT " ++ name).isEmpty && (ascii "STAT " ++ name).isPrefixOf
        (statLine name value ++ crlf)) = true := by
      rw [hline]
      simp only [List.isPrefixOf_iff_prefix.2 (List.prefix_append _ _), Bool.and_true]
      rfl
    rw [trimStartMatches, hlen, Nat.add_succ, trimStartMatchesAux, if_pos hpre, hline, List.drop_left,
      trimStartMatchesAux_of_not_prefix (show (ascii "STAT " ++ name).isPrefixOf (space :: value ++ crlf) = false from rfl)]
  obtain ⟨w, ws, hw⟩ := List.exists_cons_of_ne_nil (List.splitOnP_ne_nil (· == space) value)
  rw [statsLoop, bind_ok (readLineChecked_line hlf hu _ _), hsplit, List.splitOn, hw]
  simp only [show isMemcacheError (statLine name value ++ crlf) = false from rfl,
    show startsWith (statLine name value ++ crlf) "END" = false from rfl,
    show startsWith (statLine name value ++ crlf) "STAT" = true from rfl, Bool.false_eq_true, if_false,
    Bool.not_true, pure_bind, hvalue']

theorem statsLoop_lines (entries : List (Bytes × Bytes)) (hentries : ∀ e ∈ entries, (space ∉ e.1 ∧ 10 ∉ e.1 ∧ validUtf8 e.1) ∧ 10 ∉ e.2 ∧ validUtf8 e.2)
    (fuel : Nat) (hfuel : entries.length < fuel) (result : Stats) (s : Stream) (rest : List Chunk) :
    statsLoop fromLine fuel result { s with input := bytesIn (statLines entries) ++ rest } =
      .ok (entries.foldl (fun r e => r.insert e.1 (space :: e.2 ++ crlf)) result) { s with input := rest } := by
  induction entries generalizing fuel result with
  | nil =>
    obtain ⟨fuel, rfl⟩ : ∃ f, fuel = f + 1 := ⟨fuel - 1, by simp at hfuel; omega⟩
    rfl
  | cons e entries ih =>
    obtain ⟨fuel, rfl⟩ : ∃ f, fuel = f + 1 := ⟨fuel - 1, by simp at hfuel; omega⟩
    have he := hentries e (List.mem_cons_self _ _)
    rw [statLines, List.map_cons, List.flatten_cons, List.append_assoc, bytesIn_append, List.append_assoc,
      statsLoop_line fromLine he.1 he.2]
    exact ih (fun e' he' => hentries e' (List.mem_cons_of_mem _ he')) fuel (by simpa using hfuel) _

/-- On every reply of `STAT` lines, then `END`, whose names and values are UTF-8, the names
with no space and no line break and the values with no line break, `stats` reads the whole reply and returns the map sending
each name to what its line has after the name, the space before the value and the `\r\n` after
it kept, the last line of a name winning. -/
theorem statsReply_lines (entries : List (Bytes × Bytes)) (hentries : ∀ e ∈ entries, (space ∉ e.1 ∧ 10 ∉ e.1 ∧ validUtf8 e.1) ∧ 10 ∉ e.2 ∧ validUtf8 e.2)
    (s : Stream) (rest : List Chunk) :
    statsReply fromLine { s with input := bytesIn (statLines entries) ++ rest } =
      .ok (entries.foldl (fun r e => r.insert e.1 (space :: e.2 ++ crlf)) ∅) { s with input := rest } := by
  have hfuel : entries.length < (bytesIn (statLines entries) ++ rest).length + 1 := by
    have := length_le_flatten (fun e : Bytes × Bytes => statLine e.1 e.2 ++ crlf) (fun e => by simp [crlf_eq]) entries
    simp only [statLines, bytesIn, List.length_append, List.length_map] at this ⊢
    omega
  rw [statsReply, bind_ok (show EStateM.get _ = _ from rfl)]
  exact statsLoop_lines fromLine entries hentries _ hfuel ∅ s rest

theorem statsReply_lines_pid :
    statsReply (fun _ => .clientError []) { input := bytesIn (statLines [(ascii "pid", ascii "123")]) ++ [] } =
      .ok ((∅ : Stats).insert (ascii "pid") (ascii " 123\r\n")) { input := [] } :=
  statsReply_lines _ _ (by decide) { input := [] } []

end Memcache
