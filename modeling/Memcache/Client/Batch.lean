import Memcache.Client.Grouping
import Memcache.Client.Pools
import Memcache.Client.Text

/-!
# The batch calls

`gets`, `sets` and `deletes` group their keys by pool, visit the groups in the order of a
`HashMap`, and make one call per group. A visit is a run of calls on distinct pools, so
`visit_reorder` replays it in any other order, and `mapM_onPool_join` turns it into the run of
the keyed calls one key at a time. A visit that fails stops where it fails, and which pools it
has written to by then depends on the order (`sets_visit_order_matters`).
-/

namespace Memcache

namespace Client

variable {P : Type} (t : Target) (b : Backend P) (o : HashOrder)

theorem sets_apply (entries : List (Bytes × Value)) (e : UInt32) (c : Client P) :
    sets t b o entries e c = match groupBy (fun entry => c.hashKey t entry.1) entries with
      | none => .error .panic c
      | some m => ((fun _ => ()) <$> (o.visit m).mapM fun g => onPool g.1 (b.sets g.2 e)) c := by
  simp only [sets, bind, EStateM.bind, EStateM.get, EStateM.forM_eq_mapM]
  cases groupBy (fun entry => c.hashKey t entry.1) entries <;> rfl

theorem deletes_apply (keys : List Bytes) (c : Client P) :
    deletes t b o keys c = match groupBy (c.hashKey t) keys with
      | none => .error .panic c
      | some m => ((fun rs => ((o.visit m).zip rs).foldl (fun result q => insertDeleted result q.2 q.1.2) ∅) <$>
          (o.visit m).mapM fun g => onPool g.1 (b.deletes g.2)) c := by
  simp only [deletes, bind, EStateM.bind, EStateM.get]
  cases groupBy (c.hashKey t) keys with
  | none => rfl
  | some m =>
    show ((o.visit m).foldlM (fun result (g : Nat × List Bytes) => do
      let deleted ← onPool g.1 (b.deletes g.2)
      pure (insertDeleted result deleted g.2)) ∅) c = _
    rw [EStateM.foldlM_eq_mapM]

theorem gets_apply (keys : List Bytes) (c : Client P) :
    gets t b o keys c = match groupBy (c.hashKey t) keys with
      | none => .error .panic c
      | some m => ((fun rs => ((o.visit m).zip rs).foldl (fun result q => result.extend q.2) ∅) <$>
          (o.visit m).mapM fun g => onPool g.1 (b.gets g.2)) c := by
  simp only [gets, bind, EStateM.bind, EStateM.get]
  cases groupBy (c.hashKey t) keys with
  | none => rfl
  | some m =>
    show ((o.visit m).foldlM (fun (result : ItemMap) (g : Nat × List Bytes) => do
      let items ← onPool g.1 (b.gets g.2)
      pure (result.extend items)) ∅) c = _
    rw [EStateM.foldlM_eq_mapM]

/-! ## Pipelined sets -/

theorem filter_getD_eq {α : Type} {index : α → Option Nat} {xs : List α}
    (h : ∀ x ∈ xs, (index x).isSome) (i : Nat) :
    xs.filter (fun x => (index x).getD 0 = i) = xs.filter (fun x => index x = some i) := by
  refine List.filter_congr fun x hx => ?_
  obtain ⟨j, hj⟩ := Option.isSome_iff_exists.1 (h x hx)
  simp [hj]

theorem entryAt_run {α γ : Type} {F : List α → EStateM MemcacheError P γ} {i : Nat} {g : List α}
    {p p' : P} {rs : List γ} (h : ((entryAt i g).mapM fun q => F q.2) p = .ok rs p') :
    (g = [] ∧ p' = p) ∨ g ≠ [] ∧ ∃ r, F g p = .ok r p' ∧ rs = [r] := by
  cases g with
  | nil => cases h; exact .inl ⟨rfl, rfl⟩
  | cons a g =>
    obtain ⟨r, p₁, rs', hF, hrest, rfl⟩ := EStateM.mapM_cons_ok.1 h
    cases hrest
    exact .inr ⟨List.cons_ne_nil _ _, r, hF, rfl⟩

theorem sets_eq_set_each (hsets : ∀ entries e, b.sets entries e = entries.forM fun en => b.set en.1 en.2 e)
    {entries : List (Bytes × Value)} {e : UInt32} {c c' : Client P} (h : sets t b o entries e c = .ok () c') :
    (entries.forM fun en => set t b en.1 en.2 e) c = .ok () c' := by
  rw [sets_apply] at h
  split at h
  · cases h
  rename_i m hm
  obtain ⟨rsG, hG, -⟩ := EStateM.map_ok.1 h
  obtain ⟨hh, hl, hpools⟩ := mapM_onPool_split hG
  have hsome := groupBy_isSome hm
  let idx : Bytes × Value → Nat := fun en => (c.hashKey t en.1).getD 0
  have hidx : ∀ en ∈ entries, c.hashKey t en.1 = some (idx en) := fun en hen => by
    obtain ⟨i, hi⟩ := Option.isSome_iff_exists.1 (hsome en hen)
    simp [idx, hi]
  have hrun : ∀ i p, c.connections[i]? = some p → ∃ rsi p', c'.connections[i]? = some p' ∧
      ((entries.filter fun en => idx en = i).mapM fun en => b.set en.1 en.2 e) p = .ok rsi p' := by
    intro i p hp
    obtain ⟨p', hp', hgroup⟩ := hpools i p hp
    rw [visit_filter o (groupBy_nodup hm) (groupBy_filter hm i)] at hgroup
    rw [filter_getD_eq hsome]
    rcases entryAt_run (F := fun g => b.sets g e) hgroup with ⟨hg, rfl⟩ | ⟨-, r, hF, -⟩
    · exact ⟨[], _, hp', by rw [hg]; rfl⟩
    · rw [hsets, EStateM.forM_eq_mapM] at hF
      obtain ⟨rsi, hrsi, -⟩ := EStateM.map_ok.1 hF
      exact ⟨rsi, p', hp', hrsi⟩
  obtain ⟨rs, hseq⟩ := mapM_onPool_join (fun en hen => hashKey_lt t (hidx en hen)) hl hrun
  rw [with_connections_self hh] at hseq
  rw [EStateM.forM_eq_mapM]
  refine EStateM.map_ok.2 ⟨rs, ?_, rfl⟩
  show (entries.mapM fun en => onKey t en.1 (b.set en.1 en.2 e)) c = _
  rw [mapM_onKey_eq t Prod.fst (fun en => b.set en.1 en.2 e) idx hidx c rfl rfl]
  exact hseq

/-! ## The maps the batch calls return -/

section Lookup

variable {V γ : Type} (G : Finmap (fun _ : Bytes => V) → γ → Finmap (fun _ : Bytes => V)) {k : Bytes}

theorem lookup_foldl_congr
    (hG : ∀ r r' q, r.lookup k = r'.lookup k → (G r q).lookup k = (G r' q).lookup k) :
    ∀ (L : List γ) {r r' : Finmap fun _ : Bytes => V}, r.lookup k = r'.lookup k →
      (L.foldl G r).lookup k = (L.foldl G r').lookup k
  | [], _, _, h => h
  | q :: L, _, _, h => lookup_foldl_congr hG L (hG _ _ q h)

theorem lookup_foldl_filter
    (hG : ∀ r r' q, r.lookup k = r'.lookup k → (G r q).lookup k = (G r' q).lookup k)
    (sel : γ → Bool) :
    ∀ (Z : List γ), (∀ q ∈ Z, sel q = false → ∀ r, (G r q).lookup k = r.lookup k) →
      ∀ init, (Z.foldl G init).lookup k = ((Z.filter sel).foldl G init).lookup k
  | [], _, _ => rfl
  | q :: Z, hskip, init => by
    have hrest := lookup_foldl_filter hG sel Z fun q' hq' => hskip q' (List.mem_cons_of_mem _ hq')
    by_cases hq : sel q
    · simp only [List.foldl_cons, List.filter_cons_of_pos hq]
      exact hrest _
    · simp only [List.foldl_cons, List.filter_cons_of_neg hq]
      rw [hrest]
      exact lookup_foldl_congr G hG _ (hskip q (List.mem_cons_self _ _) (by simpa using hq) init)

end Lookup

theorem lookup_insertDeleted (r : Finmap fun _ : Bytes => Bool) (ds : List Bool) (ks : List Bytes)
    (k : Bytes) :
    (insertDeleted r ds ks).lookup k =
      ((((ds.zip ks).filter fun q => q.2 = k).getLast?.map Prod.fst).or (r.lookup k)) := by
  unfold insertDeleted
  induction ds.zip ks generalizing r with
  | nil => simp
  | cons q L ih =>
    obtain ⟨d, key⟩ := q
    rw [List.foldl_cons, ih]
    by_cases hk : key = k
    · subst hk
      rw [Finmap.lookup_insert, List.filter_cons_of_pos (by simp), List.getLast?_cons]
      cases (L.filter fun q => q.2 = key).getLast? <;> rfl
    · simp [Finmap.lookup_insert_of_ne _ (Ne.symm hk), hk]

theorem lookup_insertDeleted_of_not_mem {r : Finmap fun _ : Bytes => Bool} {ds : List Bool}
    {ks : List Bytes} {k : Bytes} (hk : k ∉ ks) : (insertDeleted r ds ks).lookup k = r.lookup k := by
  rw [lookup_insertDeleted, List.filter_eq_nil_iff.2]
  · rfl
  · rintro ⟨d, key⟩ hq
    simpa using fun e : key = k => hk (e ▸ (List.of_mem_zip hq).2)

theorem lookup_insertDeleted_resultsAt {idx : Bytes → Nat} {i : Nat} {keys : List Bytes} {rs : List Bool}
    (hlen : rs.length = keys.length) {k : Bytes} (hk : idx k = i) :
    (insertDeleted ∅ (resultsAt idx i keys rs) (keys.filter fun x => idx x = i)).lookup k =
      (((keys.zip rs).filter fun q => q.1 = k).getLast?).map Prod.snd := by
  have hzip : (resultsAt idx i keys rs).zip (keys.filter fun x => idx x = i) =
      ((keys.zip rs).filter fun q => idx q.1 = i).map fun q => (q.2, q.1) := by
    rw [resultsAt, ← map_fst_filter_zip _ hlen, List.zip_map']
  have hsel : ((keys.zip rs).filter fun q => idx q.1 = i).filter (fun q => q.1 = k) =
      (keys.zip rs).filter fun q => q.1 = k := by
    rw [List.filter_filter]
    exact List.filter_congr fun q _ => by by_cases h : q.1 = k <;> simp [h, hk]
  rw [lookup_insertDeleted, hzip, List.filter_map, Finmap.lookup_empty, Option.or_none]
  simp only [Function.comp_def, ← hsel, List.getLast?_map, Option.map_map]

section Groups

variable {γ : Type} {index : Bytes → Option Nat} {keys : List Bytes} {m : List (Nat × List Bytes)}

theorem groups_zip_filter (hm : groupBy index keys = some m) {rsG : List γ}
    (hlen : rsG.length = (o.visit m).length) (i : Nat) :
    ((o.visit m).zip rsG).filter (fun q => q.1.1 = i) =
      (entryAt i (keys.filter fun k => index k = some i)).zip (resultsAt Prod.fst i (o.visit m) rsG) := by
  rw [zip_filter_eq_resultsAt Prod.fst i hlen, visit_filter o (groupBy_nodup hm) (groupBy_filter hm i)]

theorem groups_key (hm : groupBy index keys = some m) {rsG : List γ} {q : (Nat × List Bytes) × γ}
    (hq : q ∈ (o.visit m).zip rsG) {k : Bytes} (hk : k ∈ q.1.2) : index k = some q.1.1 := by
  have hmem : q.1 ∈ m := (visit_perm o (groupBy_nodup hm)).mem_iff.1 (List.of_mem_zip hq).1
  rw [groupBy_mem hm hmem] at hk
  exact of_decide_eq_true (List.mem_filter.1 hk).2

theorem lookup_deletes_result (hm : groupBy index keys = some m) {rsG : List (List Bool)}
    (hlen : rsG.length = (o.visit m).length) (k : Bytes) :
    (((o.visit m).zip rsG).foldl (fun r q => insertDeleted r q.2 q.1.2) ∅).lookup k =
      (((entryAt ((index k).getD 0) (keys.filter fun x => index x = some ((index k).getD 0))).zip
        (resultsAt Prod.fst ((index k).getD 0) (o.visit m) rsG)).foldl
          (fun r q => insertDeleted r q.2 q.1.2) ∅).lookup k := by
  rw [lookup_foldl_filter _ (fun r r' q h => by simp only [lookup_insertDeleted, h])
    (fun q => q.1.1 = (index k).getD 0), groups_zip_filter o hm hlen]
  intro q hq hsel r
  refine lookup_insertDeleted_of_not_mem fun hk => ?_
  simp [groups_key o hm hq hk] at hsel

theorem deletes_eq_delete_each (hdel : ∀ keys, b.deletes keys = keys.mapM b.delete)
    {keys : List Bytes} {c c' : Client P} {result : Finmap fun _ : Bytes => Bool}
    (h : deletes t b o keys c = .ok result c') :
    ∃ rs, (keys.mapM fun k => delete t b k) c = .ok rs c' ∧ (∀ k, k ∈ result ↔ k ∈ keys) ∧
      ∀ k, result.lookup k = (((keys.zip rs).filter fun q => q.1 = k).getLast?).map Prod.snd := by
  rw [deletes_apply] at h
  split at h
  · cases h
  rename_i m hm
  obtain ⟨rsG, hG, hres⟩ := EStateM.map_ok.1 h
  subst hres
  obtain ⟨hh, hl, hpools⟩ := mapM_onPool_split hG
  have hsome := groupBy_isSome hm
  have hidx : ∀ k ∈ keys, c.hashKey t k = some ((c.hashKey t k).getD 0) := fun k hk => by
    obtain ⟨i, hi⟩ := Option.isSome_iff_exists.1 (hsome k hk)
    simp [hi]
  have hgroup : ∀ i p, c.connections[i]? = some p → ∃ rsi p', c'.connections[i]? = some p' ∧
      ((keys.filter fun k => (c.hashKey t k).getD 0 = i).mapM b.delete) p = .ok rsi p' ∧
      ((entryAt i (keys.filter fun k => c.hashKey t k = some i)).zip
        (resultsAt Prod.fst i (o.visit m) rsG)).foldl (fun r q => insertDeleted r q.2 q.1.2) ∅ =
        insertDeleted ∅ rsi (keys.filter fun k => c.hashKey t k = some i) := by
    intro i p hp
    obtain ⟨p', hp', hrun⟩ := hpools i p hp
    rw [visit_filter o (groupBy_nodup hm) (groupBy_filter hm i)] at hrun
    rw [filter_getD_eq hsome]
    rcases entryAt_run (F := b.deletes) hrun with ⟨hg, rfl⟩ | ⟨hg, r, hF, hr⟩
    · exact ⟨[], _, hp', by rw [hg]; rfl, by rw [hg]; rfl⟩
    · rw [hdel] at hF
      exact ⟨r, p', hp', hF, by rw [entryAt_of_ne_nil hg, hr]; rfl⟩
  obtain ⟨rs, hseq⟩ := mapM_onPool_join (fun k hk => hashKey_lt t (hidx k hk)) hl
    fun i p hp => (hgroup i p hp).imp fun _ ⟨p', hp', hrun, _⟩ => ⟨p', hp', hrun⟩
  rw [with_connections_self hh] at hseq
  have hseq' : (keys.mapM fun k => delete t b k) c = .ok rs c' := by
    show (keys.mapM fun k => onKey t k (b.delete k)) c = _
    rw [mapM_onKey_eq t (fun k => k) b.delete (fun k => (c.hashKey t k).getD 0) hidx c rfl rfl]
    exact hseq
  have hlen := EStateM.mapM_length hseq'
  have hlookup : ∀ k, (((o.visit m).zip rsG).foldl (fun r q => insertDeleted r q.2 q.1.2) ∅).lookup k =
      (((keys.zip rs).filter fun q => q.1 = k).getLast?).map Prod.snd := by
    intro k
    rw [lookup_deletes_result o hm (EStateM.mapM_length hG) k]
    by_cases hk : (c.hashKey t k).getD 0 < c.connections.length
    · obtain ⟨rsi, p', -, hrun, hfold⟩ := hgroup _ _ (List.getElem?_eq_getElem hk)
      obtain ⟨-, -, hsplit⟩ := mapM_onPool_split hseq
      obtain ⟨p'', -, hrun'⟩ := hsplit _ _ (List.getElem?_eq_getElem hk)
      rw [hfold, (EStateM.ok_inj hrun hrun').1, ← filter_getD_eq hsome]
      exact lookup_insertDeleted_resultsAt hlen rfl
    · have hnot : k ∉ keys := fun hmem => hk (hashKey_lt t (hidx k hmem))
      have hnone : (keys.filter fun x => c.hashKey t x = some ((c.hashKey t k).getD 0)) = [] :=
        List.filter_eq_nil_iff.2 fun x hx hsel => hk (hashKey_lt t (by simpa using hsel))
      rw [hnone, List.filter_eq_nil_iff.2]
      · rfl
      · exact fun q hq hsel => hnot (by simpa [of_decide_eq_true hsel] using (List.of_mem_zip hq).1)
  refine ⟨rs, hseq', fun k => ?_, hlookup⟩
  rw [← List.map_fst_zip keys rs hlen.ge, List.mem_map, ← Finmap.lookup_isSome, hlookup,
    Option.isSome_map', List.getLast?_isSome, ne_eq, List.filter_eq_nil_iff]
  simp only [not_forall, not_not, decide_eq_true_eq, exists_prop]

theorem deletes_ok {keys : List Bytes} {c : Client P} (hne : c.connections ≠ [])
    (hans : ∀ i p, c.connections[i]? = some p → (keys.filter fun k => c.hashKey t k = some i) ≠ [] →
      ∃ r p', b.deletes (keys.filter fun k => c.hashKey t k = some i) p = .ok r p') :
    ∃ result c', deletes t b o keys c = .ok result c' := by
  obtain ⟨m, hm⟩ := groupBy_of_isSome fun k (_ : k ∈ keys) => hashKey_isSome t hne k
  have hin : ∀ g ∈ o.visit m, g.1 < c.connections.length := fun g hg => by
    have hgm := (visit_perm o (groupBy_nodup hm)).mem_iff.1 hg
    obtain ⟨k, hk⟩ := List.exists_mem_of_ne_nil _ (groupBy_mem_ne_nil hm hgm)
    rw [groupBy_mem hm hgm] at hk
    exact hashKey_lt t (of_decide_eq_true (List.mem_filter.1 hk).2)
  obtain ⟨qs, hl, hqs⟩ := exists_pools (R := fun i p p' => ∃ rsi,
      (((o.visit m).filter fun g => g.1 = i).mapM fun g => b.deletes g.2) p = .ok rsi p')
    fun i p (hp : c.connections[i]? = some p) => by
      beta_reduce
      rw [visit_filter o (groupBy_nodup hm) (groupBy_filter hm i)]
      by_cases hg : (keys.filter fun k => c.hashKey t k = some i) = []
      · exact ⟨p, [], by rw [hg]; rfl⟩
      · obtain ⟨r, p', hr⟩ := hans i p hp hg
        exact ⟨p', [r], by rw [entryAt_of_ne_nil hg]; exact EStateM.mapM_cons_ok.2 ⟨r, p', [], hr, rfl, rfl⟩⟩
  obtain ⟨rs, hrun⟩ := mapM_onPool_join (f := fun g => b.deletes g.2) hin hl
    fun i p hp => (hqs i p hp).elim fun p' ⟨hq, rsi, hr⟩ => ⟨rsi, p', hq, hr⟩
  rw [deletes_apply, hm]
  exact ⟨_, _, EStateM.map_ok.2 ⟨rs, hrun, rfl⟩⟩

/-! ## The order of the visit -/

section Reorder

variable {β γ : Type} {idx : β → Option Nat} {xs : List β} {m : List (Nat × List β)}
  {F : List β → EStateM MemcacheError P γ} {c c' : Client P}

theorem visit_filter_groups (hm : groupBy idx xs = some m) (o : HashOrder) (i : Nat) :
    (o.visit m).filter (fun g => g.1 = i) = entryAt i (xs.filter fun x => idx x = some i) :=
  visit_filter o (groupBy_nodup hm) (groupBy_filter hm i)

theorem visit_reorder (hm : groupBy idx xs = some m) (o₁ o₂ : HashOrder) {rs₁ : List γ}
    (h : ((o₁.visit m).mapM fun g => onPool g.1 (F g.2)) c = .ok rs₁ c') :
    ∃ rs₂, ((o₂.visit m).mapM fun g => onPool g.1 (F g.2)) c = .ok rs₂ c' ∧
      ∀ i, resultsAt Prod.fst i (o₂.visit m) rs₂ = resultsAt Prod.fst i (o₁.visit m) rs₁ := by
  obtain ⟨hh, hl, hpools⟩ := mapM_onPool_split h
  have hnodup := groupBy_nodup hm
  have hin₁ := mapM_onPool_lt h
  have hin₂ : ∀ g ∈ o₂.visit m, g.1 < c.connections.length := fun g hg =>
    hin₁ g ((visit_perm o₁ hnodup).mem_iff.2 ((visit_perm o₂ hnodup).mem_iff.1 hg))
  obtain ⟨rs₂, h₂⟩ := mapM_onPool_join hin₂ hl fun i p hp => by
    obtain ⟨p', hp', hrun⟩ := hpools i p hp
    rw [visit_filter_groups hm o₁ i] at hrun
    exact ⟨_, p', hp', by rw [visit_filter_groups hm o₂ i]; exact hrun⟩
  rw [with_connections_self hh] at h₂
  refine ⟨rs₂, h₂, fun i => ?_⟩
  by_cases hi : i < c.connections.length
  · obtain ⟨-, -, hpools₂⟩ := mapM_onPool_split h₂
    obtain ⟨_, -, hrun₁⟩ := hpools i _ (List.getElem?_eq_getElem hi)
    obtain ⟨_, -, hrun₂⟩ := hpools₂ i _ (List.getElem?_eq_getElem hi)
    rw [visit_filter_groups hm] at hrun₁ hrun₂
    exact (EStateM.ok_inj hrun₂ hrun₁).1
  · have hnil : ∀ o : HashOrder, (∀ g ∈ o.visit m, g.1 < c.connections.length) →
        ((o.visit m).filter fun g => g.1 = i) = [] := fun o hin =>
      List.filter_eq_nil_iff.2 fun g hg hgi => hi (by simpa [of_decide_eq_true hgi] using hin g hg)
    rw [resultsAt_eq_nil (EStateM.mapM_length h₂) (hnil o₂ hin₂),
      resultsAt_eq_nil (EStateM.mapM_length h) (hnil o₁ hin₁)]

theorem visit_results (hm : groupBy idx xs = some m) (o : HashOrder) {rsG : List γ}
    (h : ((o.visit m).mapM fun g => onPool g.1 (F g.2)) c = .ok rsG c')
    {i : Nat} {g : List β} {r : γ} (hq : ((i, g), r) ∈ (o.visit m).zip rsG) :
    ∃ p p', c.connections[i]? = some p ∧ F g p = .ok r p' := by
  obtain ⟨-, -, hpools⟩ := mapM_onPool_split h
  have hlt := mapM_onPool_lt h _ (List.of_mem_zip hq).1
  obtain ⟨p', -, hrun⟩ := hpools i _ (List.getElem?_eq_getElem hlt)
  rw [visit_filter_groups hm] at hrun
  have hsel : ((i, g), r) ∈ ((o.visit m).zip rsG).filter (fun q => q.1.1 = i) :=
    List.mem_filter.2 ⟨hq, by simp⟩
  rw [zip_filter_eq_resultsAt Prod.fst _ (EStateM.mapM_length h), visit_filter_groups hm] at hsel
  rcases entryAt_run (F := F) hrun with ⟨hg, -⟩ | ⟨hg, r', hF, hr⟩
  · simp [hg] at hsel
  · rw [entryAt_of_ne_nil hg, hr] at hsel
    simp only [List.zip_cons_cons, List.zip_nil_right, List.mem_singleton, Prod.mk.injEq,
      true_and] at hsel
    obtain ⟨rfl, rfl⟩ := hsel
    exact ⟨_, p', List.getElem?_eq_getElem hlt, hF⟩

end Reorder

theorem lookup_extend (r items : ItemMap) (k : Bytes) :
    (ItemMap.extend r items).lookup k = (items.lookup k).or (r.lookup k) := by
  by_cases hk : k ∈ items
  · rw [ItemMap.extend, Finmap.lookup_union_left hk]
    obtain ⟨item, hitem⟩ := Option.isSome_iff_exists.1 (Finmap.lookup_isSome.2 hk)
    rw [hitem]
    rfl
  · rw [ItemMap.extend, Finmap.lookup_union_right hk, Finmap.lookup_eq_none.2 hk]
    rfl

theorem lookup_gets_result (hm : groupBy index keys = some m) {rsG : List ItemMap}
    (hlen : rsG.length = (o.visit m).length) (hZ : ∀ q ∈ (o.visit m).zip rsG, ∀ k ∈ q.2, k ∈ q.1.2)
    (k : Bytes) :
    (((o.visit m).zip rsG).foldl (fun (r : ItemMap) q => r.extend q.2) ∅).lookup k =
      (((entryAt ((index k).getD 0) (keys.filter fun x => index x = some ((index k).getD 0))).zip
        (resultsAt Prod.fst ((index k).getD 0) (o.visit m) rsG)).foldl
          (fun (r : ItemMap) q => r.extend q.2) ∅).lookup k := by
  rw [lookup_foldl_filter _ (fun r r' q h => by simp only [lookup_extend, h])
    (fun q => q.1.1 = (index k).getD 0), groups_zip_filter o hm hlen]
  intro q hq hsel r
  have hk : k ∉ q.2 := fun hk => by simp [groups_key o hm hq (hZ q hq k hk)] at hsel
  rw [lookup_extend, Finmap.lookup_eq_none.2 hk]
  rfl

end Groups

section Order

variable (o₁ o₂ : HashOrder) {c c' : Client P}

theorem sets_reorder {entries : List (Bytes × Value)} {e : UInt32}
    (h : sets t b o₁ entries e c = .ok () c') : sets t b o₂ entries e c = .ok () c' := by
  rw [sets_apply] at h ⊢
  cases hm : groupBy (fun entry => c.hashKey t entry.1) entries with
  | none => simp only [hm] at h; cases h
  | some m =>
    simp only [hm] at h ⊢
    obtain ⟨rs₁, h₁, -⟩ := EStateM.map_ok.1 h
    obtain ⟨rs₂, h₂, -⟩ := visit_reorder (F := fun g => b.sets g e) hm o₁ o₂ h₁
    exact EStateM.map_ok.2 ⟨rs₂, h₂, rfl⟩

theorem deletes_reorder {keys : List Bytes} {r : Finmap fun _ : Bytes => Bool}
    (h : deletes t b o₁ keys c = .ok r c') : deletes t b o₂ keys c = .ok r c' := by
  rw [deletes_apply] at h ⊢
  cases hm : groupBy (c.hashKey t) keys with
  | none => simp only [hm] at h; cases h
  | some m =>
    simp only [hm] at h ⊢
    obtain ⟨rs₁, h₁, rfl⟩ := EStateM.map_ok.1 h
    obtain ⟨rs₂, h₂, hres⟩ := visit_reorder hm o₁ o₂ h₁
    refine EStateM.map_ok.2 ⟨rs₂, h₂, Finmap.ext_lookup fun k => ?_⟩
    rw [lookup_deletes_result o₂ hm (EStateM.mapM_length h₂) k,
      lookup_deletes_result o₁ hm (EStateM.mapM_length h₁) k, hres]

def AnswersAsked (b : Backend P) (c : Client P) : Prop :=
  ∀ (i : Nat) (p : P), c.connections[i]? = some p →
    ∀ ks items p', b.gets ks p = .ok items p' → ∀ k ∈ items, k ∈ ks

theorem gets_reorder {keys : List Bytes} {r : ItemMap} (h : gets t b o₁ keys c = .ok r c') :
    ∃ r', gets t b o₂ keys c = .ok r' c' ∧ (AnswersAsked b c → r' = r) := by
  rw [gets_apply] at h ⊢
  cases hm : groupBy (c.hashKey t) keys with
  | none => simp only [hm] at h; cases h
  | some m =>
    simp only [hm] at h ⊢
    obtain ⟨rs₁, h₁, rfl⟩ := EStateM.map_ok.1 h
    obtain ⟨rs₂, h₂, hres⟩ := visit_reorder hm o₁ o₂ h₁
    refine ⟨_, EStateM.map_ok.2 ⟨rs₂, h₂, rfl⟩, fun hask => Finmap.ext_lookup fun k => ?_⟩
    have hZ : ∀ (o : HashOrder) (rs : List ItemMap),
        ((o.visit m).mapM fun g => onPool g.1 (b.gets g.2)) c = .ok rs c' →
        ∀ q ∈ (o.visit m).zip rs, ∀ k ∈ q.2, k ∈ q.1.2 := by
      rintro o rs hrun ⟨⟨i, g⟩, items⟩ hq
      obtain ⟨p, p', hp, hget⟩ := visit_results hm o hrun hq
      exact (show AnswersAsked b c from hask) i p hp g items p' hget
    rw [lookup_gets_result o₂ hm (EStateM.mapM_length h₂) (hZ o₂ rs₂ h₂) k,
      lookup_gets_result o₁ hm (EStateM.mapM_length h₁) (hZ o₁ rs₁ h₁) k, hres]

/-- Which order a batch call visits its groups in does not matter when the call returns `Ok`:
`sets` and `deletes` then give the same result and pools in every order, `gets` the same pools,
and the same map when every server answers only for keys asked of it. -/
theorem batch_visit_order_irrelevant (c c' : Client P) :
    (∀ entries e, sets t b o₁ entries e c = .ok () c' → sets t b o₂ entries e c = .ok () c') ∧
    (∀ keys r, deletes t b o₁ keys c = .ok r c' → deletes t b o₂ keys c = .ok r c') ∧
    (∀ keys r, gets t b o₁ keys c = .ok r c' →
      ∃ r', gets t b o₂ keys c = .ok r' c' ∧ (AnswersAsked b c → r' = r)) :=
  ⟨fun _ _ h => sets_reorder t b o₁ o₂ h, fun _ _ h => deletes_reorder t b o₁ o₂ h,
    fun _ _ h => gets_reorder t b o₁ o₂ h⟩

end Order

theorem batch_visit_order_irrelevant_text :
    sets ⟨64⟩ (asciiBackend .clientError) ⟨id, fun _ => List.Perm.refl _⟩
        [(ascii "a", ⟨ascii "x", 0⟩), (ascii "b", ⟨ascii "y", 0⟩)] 0
        ⟨[⟨ascii "memcache://one", { input := bytesIn (ascii "STORED\r\n") }⟩,
          ⟨ascii "memcache://two", { input := bytesIn (ascii "STORED\r\n") }⟩],
         fun k => (k.headD 0).toUInt64⟩ =
      .ok () ⟨[⟨ascii "memcache://one", { input := [], output := ascii "set b 0 0 1\r\ny\r\n" }⟩,
          ⟨ascii "memcache://two", { input := [], output := ascii "set a 0 0 1\r\nx\r\n" }⟩],
         fun k => (k.headD 0).toUInt64⟩ ∧
    sets ⟨64⟩ (asciiBackend .clientError) ⟨List.reverse, List.reverse_perm⟩
        [(ascii "a", ⟨ascii "x", 0⟩), (ascii "b", ⟨ascii "y", 0⟩)] 0
        ⟨[⟨ascii "memcache://one", { input := bytesIn (ascii "STORED\r\n") }⟩,
          ⟨ascii "memcache://two", { input := bytesIn (ascii "STORED\r\n") }⟩],
         fun k => (k.headD 0).toUInt64⟩ =
      .ok () ⟨[⟨ascii "memcache://one", { input := [], output := ascii "set b 0 0 1\r\ny\r\n" }⟩,
          ⟨ascii "memcache://two", { input := [], output := ascii "set a 0 0 1\r\nx\r\n" }⟩],
         fun k => (k.headD 0).toUInt64⟩ := by
  have hrun : sets ⟨64⟩ (asciiBackend .clientError) ⟨id, fun _ => List.Perm.refl _⟩
        [(ascii "a", ⟨ascii "x", 0⟩), (ascii "b", ⟨ascii "y", 0⟩)] 0
        ⟨[⟨ascii "memcache://one", { input := bytesIn (ascii "STORED\r\n") }⟩,
          ⟨ascii "memcache://two", { input := bytesIn (ascii "STORED\r\n") }⟩],
         fun k => (k.headD 0).toUInt64⟩ =
      .ok () ⟨[⟨ascii "memcache://one", { input := [], output := ascii "set b 0 0 1\r\ny\r\n" }⟩,
          ⟨ascii "memcache://two", { input := [], output := ascii "set a 0 0 1\r\nx\r\n" }⟩],
         fun k => (k.headD 0).toUInt64⟩ := by
    rw [sets_apply]
    exact EStateM.map_ok.2 ⟨[(), ()], EStateM.mapM_cons_ok.2 ⟨(),
      ⟨[⟨ascii "memcache://one", { input := bytesIn (ascii "STORED\r\n") }⟩,
        ⟨ascii "memcache://two", { input := [], output := ascii "set a 0 0 1\r\nx\r\n" }⟩],
       fun k => (k.headD 0).toUInt64⟩, [()], rfl, EStateM.mapM_cons_ok.2 ⟨(), _, [], rfl, rfl, rfl⟩, rfl⟩, rfl⟩
  exact ⟨hrun, (batch_visit_order_irrelevant ⟨64⟩ _ _ ⟨List.reverse, List.reverse_perm⟩ _ _).1 _ _ hrun⟩

/-- On a down server a batch stops with an error, and whether the other servers were written
to first depends on the order of the visit. -/
theorem sets_visit_order_matters :
    sets ⟨64⟩ (asciiBackend .clientError) ⟨id, fun _ => List.Perm.refl _⟩
        [(ascii "a", ⟨ascii "x", 0⟩), (ascii "b", ⟨ascii "y", 0⟩)] 0
        ⟨[⟨ascii "memcache://one", { input := bytesIn (ascii "STORED\r\n") }⟩,
          ⟨ascii "memcache://two", { input := [], writes := [.fail ⟨.timedOut⟩] }⟩],
         fun k => (k.headD 0).toUInt64⟩ =
      .error (.error (.iOError ⟨.timedOut⟩))
        ⟨[⟨ascii "memcache://one", { input := bytesIn (ascii "STORED\r\n") }⟩,
          ⟨ascii "memcache://two", { input := [] }⟩],
         fun k => (k.headD 0).toUInt64⟩ ∧
    sets ⟨64⟩ (asciiBackend .clientError) ⟨List.reverse, List.reverse_perm⟩
        [(ascii "a", ⟨ascii "x", 0⟩), (ascii "b", ⟨ascii "y", 0⟩)] 0
        ⟨[⟨ascii "memcache://one", { input := bytesIn (ascii "STORED\r\n") }⟩,
          ⟨ascii "memcache://two", { input := [], writes := [.fail ⟨.timedOut⟩] }⟩],
         fun k => (k.headD 0).toUInt64⟩ =
      .error (.error (.iOError ⟨.timedOut⟩))
        ⟨[⟨ascii "memcache://one", { input := [], output := ascii "set b 0 0 1\r\ny\r\n" }⟩,
          ⟨ascii "memcache://two", { input := [] }⟩],
         fun k => (k.headD 0).toUInt64⟩ ∧
    ({ input := bytesIn (ascii "STORED\r\n") } : Stream) ≠
      { input := [], output := ascii "set b 0 0 1\r\ny\r\n" } :=
  ⟨rfl, rfl, by decide⟩

/-! ## Batches in input order -/

/-- `sets` and `deletes` against servers that apply a batch in order: a `sets` that returns
`Ok` leaves the pools as `set` on each entry in input order does, and `deletes` leaves them as
`delete` on each key in input order does, with the result of each key's last `delete`. A
`deletes` returns `Ok` whenever every pool answers the `deletes` of its keys. -/
theorem batch_calls_in_input_order
    (hsets : ∀ entries e, b.sets entries e = entries.forM fun en => b.set en.1 en.2 e)
    (hdel : ∀ keys, b.deletes keys = keys.mapM b.delete) :
    (∀ entries e (c c' : Client P), sets t b o entries e c = .ok () c' →
      (entries.forM fun en => set t b en.1 en.2 e) c = .ok () c') ∧
    (∀ keys (c c' : Client P) result, deletes t b o keys c = .ok result c' →
      ∃ rs, (keys.mapM fun k => delete t b k) c = .ok rs c' ∧ (∀ k, k ∈ result ↔ k ∈ keys) ∧
        ∀ k, result.lookup k = (((keys.zip rs).filter fun q => q.1 = k).getLast?).map Prod.snd) ∧
    (∀ keys (c : Client P), c.connections ≠ [] →
      (∀ i p, c.connections[i]? = some p → (keys.filter fun k => c.hashKey t k = some i) ≠ [] →
        ∃ r p', b.deletes (keys.filter fun k => c.hashKey t k = some i) p = .ok r p') →
      ∃ result c', deletes t b o keys c = .ok result c') :=
  ⟨fun _ _ _ _ h => sets_eq_set_each t b o hsets h, fun _ _ _ _ h => deletes_eq_delete_each t b o hdel h,
    fun _ _ hne hans => deletes_ok t b o hne hans⟩

theorem batch_calls_in_input_order_text :
    (∀ entries e, (asciiBackend .clientError).sets entries e =
      entries.forM fun en => (asciiBackend .clientError).set en.1 en.2 e) ∧
    (∀ keys, (asciiBackend .clientError).deletes keys = keys.mapM (asciiBackend .clientError).delete) ∧
    sets ⟨64⟩ (asciiBackend .clientError) ⟨id, fun _ => List.Perm.refl _⟩ [(ascii "a", ⟨ascii "x", 0⟩)] 0
        ⟨[⟨ascii "memcache://one", { input := [] }⟩,
          ⟨ascii "memcache://two", { input := bytesIn (ascii "STORED\r\n") }⟩],
         fun k => (k.headD 0).toUInt64⟩ =
      .ok () ⟨[⟨ascii "memcache://one", { input := [] }⟩,
          ⟨ascii "memcache://two", { input := [], output := ascii "set a 0 0 1\r\nx\r\n" }⟩],
         fun k => (k.headD 0).toUInt64⟩ ∧
    ([(ascii "a", ⟨ascii "x", 0⟩)].forM fun en => set ⟨64⟩ (asciiBackend .clientError) en.1 en.2 0)
        ⟨[⟨ascii "memcache://one", { input := [] }⟩,
          ⟨ascii "memcache://two", { input := bytesIn (ascii "STORED\r\n") }⟩],
         fun k => (k.headD 0).toUInt64⟩ =
      .ok () ⟨[⟨ascii "memcache://one", { input := [] }⟩,
          ⟨ascii "memcache://two", { input := [], output := ascii "set a 0 0 1\r\nx\r\n" }⟩],
         fun k => (k.headD 0).toUInt64⟩ ∧
    ∃ result, deletes ⟨64⟩ (asciiBackend .clientError) ⟨id, fun _ => List.Perm.refl _⟩
        [ascii "a", ascii "b"]
        ⟨[⟨ascii "memcache://one", { input := bytesIn (ascii "DELETED\r\n") }⟩,
          ⟨ascii "memcache://two", { input := bytesIn (ascii "NOT_FOUND\r\n") }⟩],
         fun k => (k.headD 0).toUInt64⟩ =
      .ok result ⟨[⟨ascii "memcache://one", { input := [], output := ascii "delete b\r\n" }⟩,
          ⟨ascii "memcache://two", { input := [], output := ascii "delete a\r\n" }⟩],
         fun k => (k.headD 0).toUInt64⟩ ∧
      result.lookup (ascii "a") = some false ∧ result.lookup (ascii "b") = some true := by
  have hsets : ∀ entries e, (asciiBackend .clientError).sets entries e =
      entries.forM fun en => (asciiBackend .clientError).set en.1 en.2 e := fun _ _ => rfl
  have hdel : ∀ keys, (asciiBackend .clientError).deletes keys =
      keys.mapM (asciiBackend .clientError).delete := fun _ => rfl
  have hrun : sets ⟨64⟩ (asciiBackend .clientError) ⟨id, fun _ => List.Perm.refl _⟩
        [(ascii "a", ⟨ascii "x", 0⟩)] 0
        ⟨[⟨ascii "memcache://one", { input := [] }⟩,
          ⟨ascii "memcache://two", { input := bytesIn (ascii "STORED\r\n") }⟩],
         fun k => (k.headD 0).toUInt64⟩ =
      .ok () ⟨[⟨ascii "memcache://one", { input := [] }⟩,
          ⟨ascii "memcache://two", { input := [], output := ascii "set a 0 0 1\r\nx\r\n" }⟩],
         fun k => (k.headD 0).toUInt64⟩ := rfl
  have hone : ([ascii "a", ascii "b"].mapM fun k => delete ⟨64⟩ (asciiBackend .clientError) k)
        ⟨[⟨ascii "memcache://one", { input := bytesIn (ascii "DELETED\r\n") }⟩,
          ⟨ascii "memcache://two", { input := bytesIn (ascii "NOT_FOUND\r\n") }⟩],
         fun k => (k.headD 0).toUInt64⟩ =
      .ok [false, true] ⟨[⟨ascii "memcache://one", { input := [], output := ascii "delete b\r\n" }⟩,
          ⟨ascii "memcache://two", { input := [], output := ascii "delete a\r\n" }⟩],
         fun k => (k.headD 0).toUInt64⟩ :=
    EStateM.mapM_cons_ok.2 ⟨false,
      ⟨[⟨ascii "memcache://one", { input := bytesIn (ascii "DELETED\r\n") }⟩,
        ⟨ascii "memcache://two", { input := [], output := ascii "delete a\r\n" }⟩],
       fun k => (k.headD 0).toUInt64⟩, [true], rfl, EStateM.mapM_cons_ok.2 ⟨true, _, [], rfl, rfl, rfl⟩, rfl⟩
  have hgroups := batch_calls_in_input_order ⟨64⟩ (asciiBackend .clientError)
    ⟨id, fun _ => List.Perm.refl _⟩ hsets hdel
  obtain ⟨result, c', hd⟩ := hgroups.2.2 [ascii "a", ascii "b"]
    ⟨[⟨ascii "memcache://one", { input := bytesIn (ascii "DELETED\r\n") }⟩,
      ⟨ascii "memcache://two", { input := bytesIn (ascii "NOT_FOUND\r\n") }⟩],
     fun k => (k.headD 0).toUInt64⟩ (List.cons_ne_nil _ _) fun i p hp _ => by
    match i, hp with
    | 0, hp => cases hp; exact ⟨_, _, rfl⟩
    | 1, hp => cases hp; exact ⟨_, _, rfl⟩
  obtain ⟨rs, hseq, -, hlookup⟩ := hgroups.2.1 _ _ _ _ hd
  obtain ⟨rfl, rfl⟩ := EStateM.ok_inj hseq hone
  exact ⟨hsets, hdel, hrun, hgroups.1 _ _ _ _ hrun, result, hd, hlookup _, hlookup _⟩

end Client

end Memcache
