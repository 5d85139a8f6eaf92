import Memcache.Client.Facade

/-!
# The grouping loop

`groupBy` puts every item in the group of its index, in input order, and opens the group of
an index at its first item (`groupBy_filter`, `groupBy_nodup`); `HashOrder.visit` hands out
each group once, so what it hands out for one index is the group itself (`visit_filter`).
-/

namespace Memcache

variable {α : Type}

def entryAt (i : Nat) : List α → List (Nat × List α)
  | [] => []
  | a :: g => [(i, a :: g)]

@[simp] theorem entryAt_nil (i : Nat) : entryAt i ([] : List α) = [] := rfl

theorem entryAt_of_ne_nil {i : Nat} {g : List α} (h : g ≠ []) : entryAt i g = [(i, g)] := by
  cases g with
  | nil => exact absurd rfl h
  | cons => rfl

theorem mem_entryAt {i : Nat} {g : List α} {e : Nat × List α} : e ∈ entryAt i g ↔ e = (i, g) ∧ g ≠ [] := by
  cases g <;> simp [entryAt]

/-! ## `pushEntry` and `groupBy` -/

theorem pushEntry_filter_self (m : List (Nat × List α)) (i : Nat) (x : α) :
    (pushEntry m i x).filter (fun e => e.1 = i) = pushEntry (m.filter fun e => e.1 = i) i x := by
  induction m with
  | nil => simp [pushEntry]
  | cons e m ih => by_cases he : e.1 = i <;> simp [pushEntry, he, ih]

theorem pushEntry_filter_of_ne (m : List (Nat × List α)) {i j : Nat} (h : j ≠ i) (x : α) :
    (pushEntry m j x).filter (fun e => e.1 = i) = m.filter fun e => e.1 = i := by
  induction m with
  | nil => simp [pushEntry, h]
  | cons e m ih => by_cases he : e.1 = j <;> simp [pushEntry, List.filter_cons, he, ih, h]

theorem pushEntry_filter {m : List (Nat × List α)} {i : Nat} {g : List α} (j : Nat) (x : α)
    (hm : m.filter (fun e => e.1 = i) = entryAt i g) :
    (pushEntry m j x).filter (fun e => e.1 = i) = entryAt i (if j = i then g ++ [x] else g) := by
  by_cases hj : j = i
  · subst hj
    rw [pushEntry_filter_self, hm, if_pos rfl]
    cases g <;> simp [entryAt, pushEntry]
  · rw [pushEntry_filter_of_ne m hj, hm, if_neg hj]

theorem pushEntry_keys (m : List (Nat × List α)) (j : Nat) (x : α) :
    (pushEntry m j x).map Prod.fst = m.map Prod.fst ++ if j ∈ m.map Prod.fst then [] else [j] := by
  induction m with
  | nil => simp [pushEntry]
  | cons e m ih =>
    obtain ⟨k, as⟩ := e
    by_cases hj : k = j
    · simp [pushEntry, hj]
    · by_cases hmem : j ∈ m.map Prod.fst <;> simp [pushEntry, hj, ih, hmem, Ne.symm hj]

theorem groupBy_cons {index : α → Option Nat} {x : α} {xs : List α} {m : List (Nat × List α)}
    {m' : List (Nat × List α)}
    (h : (x :: xs).foldlM (fun m x => (index x).map fun i => pushEntry m i x) m = some m') :
    ∃ j, index x = some j ∧ xs.foldlM (fun m x => (index x).map fun i => pushEntry m i x)
      (pushEntry m j x) = some m' := by
  cases hx : index x with
  | none => simp [hx] at h
  | some j => exact ⟨j, rfl, by simpa [hx] using h⟩

theorem groupBy_isSome {index : α → Option Nat} {xs : List α} {m : List (Nat × List α)}
    (h : groupBy index xs = some m) : ∀ x ∈ xs, (index x).isSome := by
  unfold groupBy at h
  generalize ([] : List (Nat × List α)) = m₀ at h
  induction xs generalizing m₀ with
  | nil => simp
  | cons x xs ih =>
    obtain ⟨j, hj, rest⟩ := groupBy_cons h
    intro y hy
    rcases List.mem_cons.1 hy with rfl | hy
    · simp [hj]
    · exact ih _ rest y hy

theorem groupBy_filter {index : α → Option Nat} {xs : List α} {m : List (Nat × List α)}
    (h : groupBy index xs = some m) (i : Nat) :
    m.filter (fun e => e.1 = i) = entryAt i (xs.filter fun x => index x = some i) := by
  unfold groupBy at h
  suffices ∀ (m₀ : List (Nat × List α)) (g : List α), m₀.filter (fun e => e.1 = i) = entryAt i g →
      xs.foldlM (fun m x => (index x).map fun i => pushEntry m i x) m₀ = some m →
      m.filter (fun e => e.1 = i) = entryAt i (g ++ xs.filter fun x => index x = some i) from
    this [] [] rfl h
  clear h
  induction xs with
  | nil => intro m₀ g hm h; cases h; simpa using hm
  | cons x xs ih =>
    intro m₀ g hm h
    obtain ⟨j, hj, rest⟩ := groupBy_cons h
    have := ih _ _ (pushEntry_filter j x hm) rest
    by_cases hji : j = i
    · simpa [hj, hji] using this
    · simpa [hj, hji] using this

theorem groupBy_nodup {index : α → Option Nat} {xs : List α} {m : List (Nat × List α)}
    (h : groupBy index xs = some m) : (m.map Prod.fst).Nodup := by
  unfold groupBy at h
  suffices ∀ m₀ : List (Nat × List α), (m₀.map Prod.fst).Nodup →
      xs.foldlM (fun m x => (index x).map fun i => pushEntry m i x) m₀ = some m →
      (m.map Prod.fst).Nodup from this [] List.nodup_nil h
  clear h
  induction xs with
  | nil => intro m₀ hm h; cases h; exact hm
  | cons x xs ih =>
    intro m₀ hm h
    obtain ⟨j, -, rest⟩ := groupBy_cons h
    refine ih _ ?_ rest
    rw [pushEntry_keys]
    split
    · simpa using hm
    · exact List.nodup_append.2 ⟨hm, List.nodup_singleton j, List.disjoint_singleton.2 ‹_›⟩

theorem groupBy_mem {index : α → Option Nat} {xs : List α} {m : List (Nat × List α)}
    (h : groupBy index xs = some m) {e : Nat × List α} (he : e ∈ m) :
    e.2 = xs.filter fun x => index x = some e.1 := by
  have : e ∈ m.filter (fun e' => e'.1 = e.1) := List.mem_filter.2 ⟨he, by simp⟩
  rw [groupBy_filter h] at this
  exact congrArg Prod.snd (mem_entryAt.1 this).1

theorem groupBy_mem_ne_nil {index : α → Option Nat} {xs : List α} {m : List (Nat × List α)}
    (h : groupBy index xs = some m) {e : Nat × List α} (he : e ∈ m) : e.2 ≠ [] := by
  have : e ∈ m.filter (fun e' => e'.1 = e.1) := List.mem_filter.2 ⟨he, by simp⟩
  rw [groupBy_filter h] at this
  exact groupBy_mem h he ▸ (mem_entryAt.1 this).2

theorem groupBy_of_isSome {index : α → Option Nat} {xs : List α} (h : ∀ x ∈ xs, (index x).isSome) :
    ∃ m, groupBy index xs = some m := by
  unfold groupBy
  generalize ([] : List (Nat × List α)) = m₀
  induction xs generalizing m₀ with
  | nil => exact ⟨m₀, rfl⟩
  | cons x xs ih =>
    obtain ⟨j, hj⟩ := Option.isSome_iff_exists.1 (h x (List.mem_cons_self _ _))
    simpa [hj] using ih (fun y hy => h y (List.mem_cons_of_mem _ hy)) (pushEntry m₀ j x)

theorem pushEntry_flatten_perm (m : List (Nat × List α)) (j : Nat) (x : α) :
    ((pushEntry m j x).map Prod.snd).flatten.Perm ((m.map Prod.snd).flatten ++ [x]) := by
  induction m with
  | nil => simp [pushEntry]
  | cons e m ih =>
    obtain ⟨k, as⟩ := e
    by_cases hk : k = j
    · simpa [pushEntry, hk] using List.perm_middle.trans (List.perm_append_singleton x _).symm
    · simpa [pushEntry, hk] using ih.append_left as

theorem groupBy_flatten_perm {index : α → Option Nat} {xs : List α} {m : List (Nat × List α)}
    (h : groupBy index xs = some m) : (m.map Prod.snd).flatten.Perm xs := by
  unfold groupBy at h
  suffices ∀ m₀ : List (Nat × List α), xs.foldlM (fun m x => (index x).map fun i => pushEntry m i x) m₀ = some m →
      (m.map Prod.snd).flatten.Perm ((m₀.map Prod.snd).flatten ++ xs) from this [] h
  clear h
  induction xs with
  | nil => intro m₀ h; cases h; simp
  | cons x xs ih =>
    intro m₀ h
    obtain ⟨j, -, rest⟩ := groupBy_cons h
    exact (ih _ rest).trans (by simpa using (pushEntry_flatten_perm m₀ j x).append_right xs)

/-! ## Visiting the groups -/

theorem filterMap_lookup_self {β : Type} {m : List (Nat × β)} (hm : (m.map Prod.fst).Nodup) :
    (m.map Prod.fst).filterMap (fun i => (m.lookup i).map (i, ·)) = m := by
  induction m with
  | nil => rfl
  | cons e m ih =>
    obtain ⟨k, a⟩ := e
    have hk : k ∉ m.map Prod.fst := (List.nodup_cons.1 hm).1
    have hrest : (m.map Prod.fst).filterMap (fun i => (((k, a) :: m).lookup i).map (i, ·)) =
        (m.map Prod.fst).filterMap (fun i => (m.lookup i).map (i, ·)) := by
      refine List.filterMap_congr fun i hi => ?_
      have : i ≠ k := fun e => hk (e ▸ hi)
      simp [List.lookup_cons, beq_false_of_ne this]
    rw [List.map_cons, List.filterMap_cons, hrest, ih (List.nodup_cons.1 hm).2]
    simp [List.lookup_cons]

theorem visit_perm {β : Type} (o : HashOrder) {m : List (Nat × β)} (hm : (m.map Prod.fst).Nodup) :
    (o.visit m).Perm m := by
  have := (o.perm (m.map Prod.fst)).filterMap fun i => (m.lookup i).map (i, ·)
  rwa [filterMap_lookup_self hm] at this

theorem visit_filter {β : Type} (o : HashOrder) {m : List (Nat × List β)} {i : Nat} {g : List β}
    (hm : (m.map Prod.fst).Nodup) (hi : m.filter (fun e => e.1 = i) = entryAt i g) :
    (o.visit m).filter (fun e => e.1 = i) = entryAt i g := by
  have hp := (visit_perm o hm).filter fun e : Nat × List β => decide (e.1 = i)
  rw [hi] at hp
  cases g with
  | nil => exact hp.eq_nil
  | cons a g => exact List.perm_singleton.1 hp

/-! ## The grouping of the batch calls -/

/-- The grouping loop of `gets`, `deletes` (`key` the identity) and `sets` (`key` the first
component), on a client with a pool: the group of each pool is the subsequence of the items
whose key `hash_key` sends there, no other pool has a group, and the groups concatenate, in
any order, to a permutation of the items. -/
theorem grouping_loop_partitions (t : Target) {P : Type} (key : α → Bytes) (c : Client P)
    (hne : c.connections ≠ []) (xs : List α) :
    ∃ m, groupBy (fun x => c.hashKey t (key x)) xs = some m ∧ (m.map Prod.fst).Nodup ∧
      (∀ i, m.filter (fun e => e.1 = i) = entryAt i (xs.filter fun x => c.hashKey t (key x) = some i)) ∧
      ∀ groups : List (Nat × List α), groups.Perm m → (groups.map Prod.snd).flatten.Perm xs := by
  obtain ⟨m, hm⟩ := groupBy_of_isSome fun x _ => Client.hashKey_isSome t hne (key x)
  exact ⟨m, hm, groupBy_nodup hm, groupBy_filter hm, fun _ hp => (hp.map _).flatten.trans (groupBy_flatten_perm hm)⟩

theorem grouping_loop_partitions_two_pools :
    (⟨[(), ()], fun k => k.length.toUInt64⟩ : Client Unit).connections ≠ [] ∧
    ∃ m, groupBy (fun x => (⟨[(), ()], fun k => k.length.toUInt64⟩ : Client Unit).hashKey ⟨64⟩ (id x))
        [ascii "a", ascii "bc", ascii "d"] = some m ∧ (m.map Prod.fst).Nodup ∧
      (∀ i, m.filter (fun e => e.1 = i) = entryAt i ([ascii "a", ascii "bc", ascii "d"].filter fun x =>
        (⟨[(), ()], fun k => k.length.toUInt64⟩ : Client Unit).hashKey ⟨64⟩ (id x) = some i)) ∧
      ∀ groups : List (Nat × List Bytes), groups.Perm m →
        (groups.map Prod.snd).flatten.Perm [ascii "a", ascii "bc", ascii "d"] :=
  ⟨by simp, grouping_loop_partitions ⟨64⟩ id _ (by simp) _⟩

/-- On a client with no pool the loop panics at the first key. -/
theorem grouping_loop_no_pool :
    groupBy ((⟨[], fun _ => 0⟩ : Client Unit).hashKey ⟨64⟩) [ascii "foo"] = none := rfl

end Memcache
