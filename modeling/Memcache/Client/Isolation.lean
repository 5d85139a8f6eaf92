import Memcache.Client.Cluster

/-!
# What a call of the client touches

Every method of the client leases connections through `onPool`, which writes back the pool it
leased and no other. So a call touches the pools of its keys only, whatever the backend does
and whether it returns or fails, and keeps the hash function and the number of pools
(`Client.calls_keep_other_pools`), and what it returns depends on those pools only: a run of
calls on one pool returns the same whatever the other pools hold (`Client.runCalls_isolated`).
The methods on every pool call the pools in index order and stop at the first that fails: the
loop over indices is a plain recursion over the list of pools (`Client.eachPool_refines`).
-/

namespace Memcache

def Call.reaches {P : Type} (t : Target) (c : Client P) : Call → Nat → Bool
  | .gets keys, j => keys.any fun k => c.hashKey t k == some j
  | .flush, _ | .flushWithDelay _, _ => true
  | call, j => call.command.key.bind (c.hashKey t) == some j

theorem EStateM.bind_of_ok {ε σ α β : Type} {x : EStateM ε σ α} {f : α → EStateM ε σ β} {s s' : σ} {a : α}
    (h : x s = .ok a s') : (x >>= f) s = f a s' := by
  simp only [bind, EStateM.bind, h]

theorem EStateM.bind_of_error {ε σ α β : Type} {x : EStateM ε σ α} {f : α → EStateM ε σ β} {s s' : σ} {e : ε}
    (h : x s = .error e s') : (x >>= f) s = .error e s' := by
  simp only [bind, EStateM.bind, h]

namespace Client

variable {P α β : Type}

def final : EStateM.Result Fault (Client P) α → Client P
  | .ok _ c => c
  | .error _ c => c

structure SameOutside (S : Nat → Prop) (c c' : Client P) : Prop where
  hash : c'.hashFunction = c.hashFunction
  length : c'.connections.length = c.connections.length
  pools : ∀ j, ¬ S j → c'.connections[j]? = c.connections[j]?

theorem SameOutside.refl (S : Nat → Prop) (c : Client P) : SameOutside S c c := ⟨rfl, rfl, fun _ _ => rfl⟩

theorem SameOutside.trans {S : Nat → Prop} {c₁ c₂ c₃ : Client P} (h₁ : SameOutside S c₁ c₂)
    (h₂ : SameOutside S c₂ c₃) : SameOutside S c₁ c₃ :=
  ⟨h₂.hash.trans h₁.hash, h₂.length.trans h₁.length, fun j hj => (h₂.pools j hj).trans (h₁.pools j hj)⟩

theorem SameOutside.mono {S T : Nat → Prop} {c c' : Client P} (h : SameOutside S c c') (hST : ∀ j, S j → T j) :
    SameOutside T c c' :=
  ⟨h.hash, h.length, fun j hj => h.pools j fun hs => hj (hST j hs)⟩

def Keeps (S : Nat → Prop) (m : ClientM P α) : Prop := ∀ c, SameOutside S c (final (m c))

variable {S : Nat → Prop}

theorem final_map (f : α → β) (m : ClientM P α) (c : Client P) : final ((f <$> m) c) = final (m c) := by
  show final (EStateM.map f m c) = _
  unfold EStateM.map
  cases m c <;> rfl

theorem keeps_pure (a : α) : Keeps S (pure a : ClientM P α) := SameOutside.refl S

theorem keeps_bind {m : ClientM P α} {f : α → ClientM P β} (hm : Keeps S m) (hf : ∀ a, Keeps S (f a)) :
    Keeps S (m >>= f) := by
  intro c
  have := hm c
  simp only [bind, EStateM.bind]
  cases h : m c with
  | ok a c' => rw [h] at this; exact this.trans (hf a c')
  | error e c' => rwa [h] at this

theorem keeps_map (f : α → β) {m : ClientM P α} (hm : Keeps S m) : Keeps S (f <$> m) := fun c =>
  final_map f m c ▸ hm c

theorem keeps_onPool {i : Nat} (hi : S i) (m : EStateM MemcacheError P α) : Keeps S (onPool i m) := by
  intro c
  have hset (p : P) : SameOutside S c { c with connections := c.connections.set i p } :=
    ⟨rfl, List.length_set .., fun j hj => List.getElem?_set_ne fun (h : i = j) => hj (h ▸ hi)⟩
  unfold onPool
  split
  · exact SameOutside.refl S c
  · split <;> exact hset _

theorem keeps_mapM {xs : List β} {f : β → ClientM P α} (h : ∀ x ∈ xs, Keeps S (f x)) : Keeps S (xs.mapM f) := by
  induction xs with
  | nil => exact keeps_pure _
  | cons x xs ih =>
    rw [List.mapM_cons]
    exact keeps_bind (h x (List.mem_cons_self _ _)) fun _ =>
      keeps_bind (ih fun y hy => h y (List.mem_cons_of_mem _ hy)) fun _ => keeps_pure _

/-! ## The pools of the keys -/

theorem groupBy_visit_index {γ : Type} {index : γ → Option Nat} {xs : List γ} {m : List (Nat × List γ)}
    (hm : groupBy index xs = some m) (o : HashOrder) {g : Nat × List γ} (hg : g ∈ o.visit m) :
    xs.any (fun x => index x == some g.1) := by
  have hgm := (visit_perm o (groupBy_nodup hm)).subset hg
  obtain ⟨x, hx⟩ := List.exists_mem_of_ne_nil _ (groupBy_mem_ne_nil hm hgm)
  rw [groupBy_mem hm hgm, List.mem_filter] at hx
  exact List.any_eq_true.2 ⟨x, hx.1, by simpa using hx.2⟩

theorem batch_sameOutside {γ δ ρ : Type} {index : γ → Option Nat} {xs : List γ} {m : List (Nat × List γ)}
    (hm : groupBy index xs = some m) (o : HashOrder) (F : List δ → ρ) (step : List γ → EStateM MemcacheError P δ)
    (c : Client P) :
    SameOutside (fun j => xs.any fun x => index x == some j) c (final ((F <$> (o.visit m).mapM fun g =>
      onPool g.1 (step g.2)) c)) :=
  keeps_map F (keeps_mapM fun _ hg => keeps_onPool (groupBy_visit_index hm o hg) _) c

variable (t : Target)

theorem onKey_sameOutside (key : Bytes) (m : EStateM MemcacheError P α) (c : Client P) :
    SameOutside (fun j => c.hashKey t key = some j) c (final (onKey t key m c)) := by
  cases h : c.hashKey t key with
  | none => simp only [onKey, getConnection_eq_hashKey, h]; exact SameOutside.refl _ c
  | some i => rw [onKey_eq_onPool t m h]; exact keeps_onPool (by rfl) m c

theorem call_sameOutside (b : Backend P) (o : HashOrder) (call : Call) (c : Client P) :
    SameOutside (fun j => call.reaches t c j) c (final (Client.call t b o call c)) := by
  have heach (m : EStateM MemcacheError P Unit) : SameOutside (fun _ => True) c (final (eachPool b m c)) := by
    rw [eachPool_eq]
    exact keeps_mapM (fun i _ => keeps_onPool trivial _) c
  cases call
  case gets keys =>
    rw [Client.call, final_map, gets_apply]
    split
    · exact SameOutside.refl _ c
    · exact batch_sameOutside ‹_› o _ _ c
  case flush => rw [Client.call, final_map, flush, final_map]; exact (heach _).mono fun _ _ => rfl
  case flushWithDelay => rw [Client.call, final_map, flushWithDelay, final_map]; exact (heach _).mono fun _ _ => rfl
  all_goals
    rw [Client.call, final_map]
    exact (onKey_sameOutside t _ _ c).mono fun j h => by simp [Call.reaches, Call.command, Command.key, h]

/-- A call of the client leaves every pool it does not lease as it was, whatever the backend
does and whether the call returns or fails, and keeps the hash function and the number of
pools; so do `sets` and `deletes`, which lease the pools of their keys. -/
theorem calls_keep_other_pools (b : Backend P) (o : HashOrder) (c : Client P) :
    (∀ call, SameOutside (fun j => call.reaches t c j) c (final (Client.call t b o call c))) ∧
    (∀ entries expiration, SameOutside (fun j => entries.any fun en => c.hashKey t en.1 == some j) c
      (final (sets t b o entries expiration c))) ∧
    (∀ keys, SameOutside (fun j => keys.any fun k => c.hashKey t k == some j) c (final (deletes t b o keys c))) := by
  refine ⟨fun call => call_sameOutside t b o call c, fun entries e => ?_, fun keys => ?_⟩
  · rw [sets_apply]
    split
    · exact SameOutside.refl _ c
    · exact batch_sameOutside ‹_› o (fun _ => ()) (fun g => b.sets g e) c
  · rw [deletes_apply]
    split
    · exact SameOutside.refl _ c
    · exact batch_sameOutside ‹_› o _ _ c

/-! ## The calls on every pool -/

/-- A call on each pool in turn, stopping at the first that fails: the answers or the error,
and the pools it ends with. -/
def runEach (f : EStateM MemcacheError P α) : List P → Except MemcacheError (List α) × List P
  | [] => (.ok [], [])
  | p :: ps =>
    match f p with
    | .ok a p' =>
      let rest := runEach f ps
      ((a :: ·) <$> rest.1, p' :: rest.2)
    | .error e p' => (.error e, p' :: ps)

def ofPools (c : Client P) : Except MemcacheError α × List P → EStateM.Result Fault (Client P) α
  | (.ok a, qs) => .ok a { c with connections := qs }
  | (.error e, qs) => .error (.error e) { c with connections := qs }

theorem onPool_append_ok {f : EStateM MemcacheError P α} {c : Client P} {done ps : List P} {p p' : P} {a : α}
    (h : f p = .ok a p') :
    onPool done.length f { c with connections := done ++ p :: ps } = .ok a { c with connections := done ++ p' :: ps } := by
  simp [onPool, List.getElem_append_right, List.set_append_right, h]

theorem onPool_append_error {f : EStateM MemcacheError P α} {c : Client P} {done ps : List P} {p p' : P}
    {e : MemcacheError} (h : f p = .error e p') :
    onPool done.length f { c with connections := done ++ p :: ps } =
      .error (.error e) { c with connections := done ++ p' :: ps } := by
  simp [onPool, List.getElem_append_right, List.set_append_right, h]

theorem mapM_onPool_loop (f : EStateM MemcacheError P α) (c : Client P) (done rest : List P) :
    ((List.range' done.length rest.length).mapM fun i => onPool i f) { c with connections := done ++ rest } =
      ofPools c (Prod.map id (done ++ ·) (runEach f rest)) := by
  induction rest generalizing done with
  | nil => rfl
  | cons p ps ih =>
    rw [List.length_cons, List.range'_succ, List.mapM_cons]
    cases hf : f p with
    | error e p' =>
      rw [EStateM.bind_of_error (onPool_append_error hf)]
      simp [runEach, hf, ofPools]
    | ok a p' =>
      rw [EStateM.bind_of_ok (onPool_append_ok hf)]
      have := ih (done ++ [p'])
      simp only [List.length_append, List.length_singleton, List.append_assoc, List.singleton_append] at this
      simp only [runEach, hf]
      rcases hr : runEach f ps with ⟨_ | rs, qs⟩ <;> rw [hr] at this
      · rw [EStateM.bind_of_error this]; rfl
      · rw [EStateM.bind_of_ok this]; rfl

theorem mapM_onPool_range (f : EStateM MemcacheError P α) (c : Client P) :
    ((List.range c.connections.length).mapM fun i => onPool i f) c = ofPools c (runEach f c.connections) := by
  rw [List.range_eq_range']
  exact mapM_onPool_loop f c [] c.connections

/-- `flush`, `flush_with_delay`, `version` and `stats` call the pools in index order, each once,
and stop at the first that fails, leaving the pools after it as they were; each answer comes
with the URL of its pool, read after the call. -/
theorem eachPool_refines (b : Backend P) (m : EStateM MemcacheError P α) (c : Client P) :
    eachPool b m c = ofPools c (runEach (do let a ← m; let p ← EStateM.get; pure (b.url p, a)) c.connections) := by
  rw [eachPool_eq]
  exact mapM_onPool_range _ c

/-! ## Runs on one pool -/

section Agree

variable {i : Nat}

def AgreeOn (i : Nat) : EStateM.Result Fault (Client P) α → EStateM.Result Fault (Client P) α → Prop
  | .ok a c, .ok a' c' => a = a' ∧ SameOutside (· ≠ i) c c'
  | .error e c, .error e' c' => e = e' ∧ SameOutside (· ≠ i) c c'
  | _, _ => False

def Local (i : Nat) (m : ClientM P α) : Prop := ∀ c c', SameOutside (· ≠ i) c c' → AgreeOn i (m c) (m c')

theorem SameOutside.pool {c c' : Client P} (h : SameOutside (· ≠ i) c c') : c'.connections[i]? = c.connections[i]? :=
  h.pools i (not_not.2 rfl)

theorem local_pure (a : α) : Local i (pure a : ClientM P α) := fun _ _ h => ⟨rfl, h⟩

theorem agreeOn_bind_of {m : ClientM P α} {f : α → ClientM P β} {c c' : Client P} (hm : AgreeOn i (m c) (m c'))
    (hf : ∀ a c₁ c₁', m c = .ok a c₁ → SameOutside (· ≠ i) c₁ c₁' → AgreeOn i (f a c₁) (f a c₁')) :
    AgreeOn i ((m >>= f) c) ((m >>= f) c') := by
  simp only [bind, EStateM.bind]
  cases h : m c <;> cases h' : m c' <;> rw [h, h'] at hm <;> simp only [AgreeOn] at hm
  case ok.ok => obtain ⟨rfl, hc⟩ := hm; exact hf _ _ _ h hc
  case error.error => exact hm

theorem local_bind {m : ClientM P α} {f : α → ClientM P β} (hm : Local i m) (hf : ∀ a, Local i (f a)) :
    Local i (m >>= f) := fun c c' h => agreeOn_bind_of (hm c c' h) fun a _ _ _ hc => hf a _ _ hc

theorem agreeOn_attempt {m : ClientM P α} {c c' : Client P} (hm : AgreeOn i (m c) (m c')) :
    AgreeOn i (attempt m c) (attempt m c') := by
  unfold attempt
  cases h : m c <;> cases h' : m c' <;> rw [h, h'] at hm <;> simp only [AgreeOn] at hm ⊢
  case ok.ok => exact ⟨congrArg _ hm.1, hm.2⟩
  case error.error => exact ⟨congrArg _ hm.1, hm.2⟩

theorem attempt_final {m : ClientM P α} {c c₁ : Client P} {r : Except Fault α} (h : attempt m c = .ok r c₁) :
    c₁ = final (m c) := by
  unfold attempt at h
  cases hm : m c <;> rw [hm] at h <;> cases h <;> rfl

theorem agreeOn_map (f : α → β) {m : ClientM P α} {c c' : Client P} (hm : AgreeOn i (m c) (m c')) :
    AgreeOn i ((f <$> m) c) ((f <$> m) c') := by
  show AgreeOn i (EStateM.map f m c) (EStateM.map f m c')
  unfold EStateM.map
  cases h : m c <;> cases h' : m c' <;> rw [h, h'] at hm <;> simp only [AgreeOn] at hm ⊢
  case ok.ok => exact ⟨congrArg f hm.1, hm.2⟩
  case error.error => exact hm

theorem local_onPool (m : EStateM MemcacheError P α) : Local i (onPool i m) := by
  intro c c' h
  have hset (p : P) : SameOutside (· ≠ i) { c with connections := c.connections.set i p }
      { c' with connections := c'.connections.set i p } :=
    ⟨h.hash, by simpa using h.length, fun j hj => by
      obtain rfl := not_not.1 hj
      simp [List.getElem?_set, h.length]⟩
  unfold onPool
  rw [h.pool]
  split
  · exact ⟨rfl, h⟩
  · split
    · exact ⟨rfl, hset _⟩
    · exact ⟨rfl, hset _⟩

theorem local_mapM {xs : List β} {f : β → ClientM P α} (h : ∀ x ∈ xs, Local i (f x)) : Local i (xs.mapM f) := by
  induction xs with
  | nil => exact local_pure _
  | cons x xs ih =>
    rw [List.mapM_cons]
    exact local_bind (h x (List.mem_cons_self _ _)) fun _ =>
      local_bind (ih fun y hy => h y (List.mem_cons_of_mem _ hy)) fun _ => local_pure _

theorem Call.reaches_congr {c c' : Client P} (hh : c'.hashFunction = c.hashFunction)
    (hl : c'.connections.length = c.connections.length) : Call.reaches t c' = Call.reaches t c := by
  have : c'.hashKey t = c.hashKey t := funext (hashKey_congr t hh hl)
  unfold Call.reaches
  rw [this]

theorem call_agreeOn (b : Backend P) (o : HashOrder) {call : Call} {c c' : Client P}
    (hreach : ∀ j, call.reaches t c j → j = i) (h : SameOutside (· ≠ i) c c') :
    AgreeOn i (Client.call t b o call c) (Client.call t b o call c') := by
  have hkey : c'.hashKey t = c.hashKey t := funext (hashKey_congr t h.hash h.length)
  have hkeyed {γ : Type} (key : Bytes) (m : EStateM MemcacheError P γ) (hk : ∀ j, c.hashKey t key = some j → j = i) :
      AgreeOn i (onKey t key m c) (onKey t key m c') := by
    cases hj : c.hashKey t key with
    | none => simp only [onKey, getConnection_eq_hashKey, hkey, hj]; exact ⟨rfl, h⟩
    | some j =>
      obtain rfl := hk j hj
      rw [onKey_eq_onPool t m hj, onKey_eq_onPool t m (hkey ▸ hj)]
      exact local_onPool m c c' h
  cases call
  case gets keys =>
    refine agreeOn_map _ ?_
    rw [gets_apply, gets_apply, hkey]
    cases hm : groupBy (c.hashKey t) keys with
    | none => exact ⟨rfl, h⟩
    | some m =>
      refine agreeOn_map _ (local_mapM (fun g hg => ?_) c c' h)
      rw [← hreach g.1 (groupBy_visit_index hm o hg)]
      exact local_onPool _
  case flush | flushWithDelay => exact absurd (hreach (i + 1) rfl) (by omega)
  all_goals
    refine agreeOn_map _ (hkeyed _ _ fun j hj => hreach j ?_)
    simp [Call.reaches, Call.command, Command.key, hj]

/-- Pools are independent: a run of calls whose keys all hash to pool `i`, on two clients
with the same hash function, the same number of pools and the same pool `i`, returns the same
results and leaves pool `i` the same, whatever the other pools hold and whatever the backend
does. -/
theorem runCalls_isolated (b : Backend P) (o : HashOrder) {calls : List Call} {c c' : Client P}
    (hcalls : ∀ call ∈ calls, ∀ j, call.reaches t c j → j = i) (h : SameOutside (· ≠ i) c c') :
    AgreeOn i (runCalls t b o calls c) (runCalls t b o calls c') := by
  induction calls generalizing c c' with
  | nil => exact ⟨rfl, h⟩
  | cons call calls ih =>
    rw [runCalls, List.mapM_cons]
    refine agreeOn_bind_of (agreeOn_attempt (call_agreeOn t b o (hcalls call (List.mem_cons_self _ _)) h))
      fun r c₁ c₁' h₁ hc₁ => agreeOn_bind_of (ih (fun call' hc' j hj => hcalls call' (List.mem_cons_of_mem _ hc') j ?_) hc₁)
        fun _ _ _ _ hc₂ => local_pure _ _ _ hc₂
    have hframe := attempt_final h₁ ▸ call_sameOutside t b o call c
    rwa [← Call.reaches_congr t hframe.hash hframe.length]

theorem runCalls_isolated_get :
    AgreeOn 0 (runCalls ⟨64⟩ (asciiBackend .clientError) ⟨id, fun _ => List.Perm.refl _⟩ [.get (ascii "a")]
        ⟨[⟨ascii "memcache://one", { input := [] }⟩, ⟨ascii "memcache://two", { input := [] }⟩], fun _ => 0⟩)
      (runCalls ⟨64⟩ (asciiBackend .clientError) ⟨id, fun _ => List.Perm.refl _⟩ [.get (ascii "a")]
        ⟨[⟨ascii "memcache://one", { input := [] }⟩,
          ⟨ascii "memcache://two", { input := bytesIn (ascii "END\r\n") }⟩], fun _ => 0⟩) :=
  runCalls_isolated _ _ _ (fun call hc j hj => by
      simp only [List.mem_singleton] at hc
      subst hc
      simp [Call.reaches, Call.command, Command.key, hashKey, Target.asUsize] at hj
      exact hj.symm)
    ⟨rfl, rfl, fun j hj => by obtain rfl := not_not.1 hj; rfl⟩

end Agree

end Client

end Memcache
