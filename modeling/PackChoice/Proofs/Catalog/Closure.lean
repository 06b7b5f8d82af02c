import PackChoice.Catalog.Dependencies
import PackChoice.Proofs.Catalog.Lookup
import PackChoice.Proofs.Walk

/-!
What the closure of some packs holds. Packs depend on each other as the catalog says, whatever
their positions: `Catalog.Needs` is the relation between packs, and the graph of positions agrees
with it (`reaches_iff`). A closure that succeeds lists exactly the packs that its seeds need, each
behind its dependencies (`closure_eq_ok`), and it succeeds exactly when no seed needs a pack that
needs itself (`closure_ok_iff`). It begins with the closure of the first seeds alone
(`closure_append_eq_ok`).
-/

namespace PackChoice.Catalog

open Relation (ReflTransGen TransGen)

variable {c : Catalog} {p q : Pack} {i j : Nat}

/-- A pack of the catalog lists another one among its dependencies. -/
def DependsOn (c : Catalog) (p q : Pack) : Prop :=
  p ∈ c.packs ∧ q ∈ c.packs ∧ q.name ∈ p.dependencies

/-- A pack is another one or depends on it, directly or through others. -/
def Needs (c : Catalog) : Pack → Pack → Prop := ReflTransGen c.DependsOn

/-- No pack that a pack needs depends on itself, directly or through others. -/
def CircleFree (c : Catalog) (p : Pack) : Prop :=
  ∀ q, c.Needs p q → ¬ TransGen c.DependsOn q q

theorem Needs.mem (h : c.Needs p q) (hp : p ∈ c.packs) : q ∈ c.packs := by
  cases h with
  | refl => exact hp
  | tail _ hq => exact hq.2.1

theorem Needs.mem_of_ne (h : c.Needs p q) (hne : p ≠ q) : p ∈ c.packs := by
  rcases ReflTransGen.cases_head h with he | ⟨r, hr, -⟩
  · exact absurd he hne
  · exact hr.1

theorem exists_dependency (hp : p ∈ c.packs) {name : String} (h : name ∈ p.dependencies) :
    ∃ q, c.DependsOn p q ∧ q.name = name := by
  have hknown := c.references_known p hp name (List.mem_append_left _ h)
  obtain ⟨q, hq, rfl⟩ := Pack.mem_names.1 hknown
  exact ⟨q, ⟨hp, hq, h⟩, rfl⟩

/-! ## Positions -/

theorem packAt?_of_getElem? (h : c.packs[i]? = some p) : c.packAt? i = some p := by
  rw [packAt?, h]

theorem mem_of_packAt? (h : c.packAt? i = some p) : p ∈ c.packs := by
  unfold packAt? at h
  split at h
  · next q hq => exact Option.some.inj h ▸ List.mem_of_getElem? hq
  · exact List.mem_of_getElem? h

theorem dependenciesOf_of_getElem? (hp : c.packs[i]? = some p) :
    c.dependenciesOf i = c.indexesOf p.dependencies := by
  rw [dependenciesOf, packAt?_of_getElem? hp]

variable {seeds : List Nat}

/-- Whatever position a step leaves, it comes to a position of the catalog. -/
theorem dependsOn_of_leads (h : (c.dependencyGraph seeds).Leads i j) :
    ∃ p q, c.packAt? i = some p ∧ c.packs[j]? = some q ∧ c.DependsOn p q := by
  obtain ⟨ys, hys, hj⟩ := h
  obtain rfl := Except.ok.inj hys
  unfold dependenciesOf at hj
  cases hp : c.packAt? i with
  | none =>
    rw [hp] at hj
    exact absurd hj List.not_mem_nil
  | some p =>
    rw [hp] at hj
    obtain ⟨q, hq, hname⟩ := mem_indexesOf.1 hj
    exact ⟨p, q, rfl, hq, mem_of_packAt? hp, List.mem_of_getElem? hq, hname⟩

theorem leads_iff (hp : c.packs[i]? = some p) :
    (c.dependencyGraph seeds).Leads i j ↔ ∃ q, c.packs[j]? = some q ∧ c.DependsOn p q := by
  constructor
  · intro h
    obtain ⟨r, q, hr, hq, hrq⟩ := dependsOn_of_leads h
    rw [packAt?_of_getElem? hp] at hr
    rw [← Option.some.inj hr] at hrq
    exact ⟨q, hq, hrq⟩
  · rintro ⟨q, hq, -, -, hname⟩
    exact ⟨_, congrArg Except.ok (dependenciesOf_of_getElem? hp), mem_indexesOf.2 ⟨q, hq, hname⟩⟩

theorem reaches_iff (hp : c.packs[i]? = some p) :
    (c.dependencyGraph seeds).Reaches i j ↔ ∃ q, c.packs[j]? = some q ∧ c.Needs p q := by
  constructor
  · intro h
    induction h with
    | refl => exact ⟨p, hp, ReflTransGen.refl⟩
    | tail _ hjk ih =>
      obtain ⟨q, hq, hpq⟩ := ih
      obtain ⟨r, hr, hqr⟩ := (leads_iff hq).1 hjk
      exact ⟨r, hr, hpq.tail hqr⟩
  · rintro ⟨q, hq, h⟩
    induction h generalizing j with
    | refl =>
      rw [position_inj hp hq rfl]
      exact ReflTransGen.refl
    | @tail r q _ hrq ih =>
      obtain ⟨k, hk⟩ := List.mem_iff_getElem?.1 hrq.1
      exact (ih hk).tail ((leads_iff hk).2 ⟨q, hq, hrq⟩)

theorem onCircle_iff (hp : c.packs[i]? = some p) :
    (c.dependencyGraph seeds).OnCircle i ↔ TransGen c.DependsOn p p := by
  rw [Graph.OnCircle, TransGen.head'_iff, TransGen.head'_iff]
  constructor
  · rintro ⟨j, hij, hji⟩
    obtain ⟨q, hq, hpq⟩ := (leads_iff hp).1 hij
    obtain ⟨r, hr, hqr⟩ := (reaches_iff hq).1 hji
    rw [hp] at hr
    rw [← Option.some.inj hr] at hqr
    exact ⟨q, hpq, hqr⟩
  · rintro ⟨q, hpq, hqp⟩
    obtain ⟨j, hj⟩ := List.mem_iff_getElem?.1 hpq.2.1
    exact ⟨j, (leads_iff hp).2 ⟨q, hj, hpq⟩, (reaches_iff hj).2 ⟨p, hp, hqp⟩⟩

theorem covers_of_lt (h : i < c.packs.length) : (c.dependencyGraph seeds).Covers i := by
  intro j k hij _
  obtain ⟨q, hq, -⟩ := (reaches_iff (List.getElem?_eq_getElem h)).1 hij
  exact List.mem_append_left _ (List.mem_range.2 (lt_of_getElem? hq))

/-! ## Closures -/

/-- The packs that `seeds` need, in an order for installation. -/
structure InstallOrder (c : Catalog) (seeds packs : List Pack) : Prop where
  names_nodup : (Pack.names packs).Nodup
  mem_iff : ∀ p, p ∈ packs ↔ ∃ q ∈ seeds, c.Needs q p
  dependencies_before : ∀ before p after, packs = before ++ p :: after →
    ∀ name ∈ p.dependencies, name ∈ Pack.names before

namespace InstallOrder

variable {seeds packs : List Pack}

theorem nodup (h : c.InstallOrder seeds packs) : packs.Nodup := List.Nodup.of_map _ h.names_nodup

theorem congr {seeds' : List Pack} (h : c.InstallOrder seeds packs)
    (hs : ∀ p, p ∈ seeds ↔ p ∈ seeds') : c.InstallOrder seeds' packs where
  names_nodup := h.names_nodup
  mem_iff p := by simp only [h.mem_iff p, hs]
  dependencies_before := h.dependencies_before

theorem mem_of_seed (h : c.InstallOrder seeds packs) (hp : p ∈ seeds) : p ∈ packs :=
  (h.mem_iff p).2 ⟨p, hp, ReflTransGen.refl⟩

theorem mem_of_needs (h : c.InstallOrder seeds packs) (hp : p ∈ packs) (hpq : c.Needs p q) :
    q ∈ packs := by
  obtain ⟨r, hr, hrp⟩ := (h.mem_iff p).1 hp
  exact (h.mem_iff q).2 ⟨r, hr, hrp.trans hpq⟩

theorem known (h : c.InstallOrder seeds packs) (hs : ∀ q ∈ seeds, q ∈ c.packs) :
    ∀ p ∈ packs, p ∈ c.packs := by
  intro p hp
  obtain ⟨q, hq, hqp⟩ := (h.mem_iff p).1 hp
  exact hqp.mem (hs q hq)

theorem mem_iff_needs (h : c.InstallOrder [p] packs) : q ∈ packs ↔ c.Needs p q := by
  rw [h.mem_iff]
  simp only [List.mem_singleton, exists_eq_left]

end InstallOrder

variable {order : List Nat}

theorem closure_eq_ok (hs : ∀ i ∈ seeds, i < c.packs.length) (h : c.closure seeds = .ok order) :
    c.InstallOrder (c.packsAt seeds) (c.packsAt order) := by
  obtain ⟨hf, hmem⟩ := Graph.finishOrder_eq_ok (fun i hi => covers_of_lt (hs i hi)) h
  refine ⟨?_, fun p => ?_, ?_⟩
  · have hnodup : (c.packsAt order).Nodup :=
      List.Nodup.filterMap (fun i j p hi hj => position_inj hi hj rfl) hf.nodup
    refine hnodup.map_on fun p hp q hq hpq => ?_
    obtain ⟨i, -, hi⟩ := mem_packsAt.1 hp
    obtain ⟨j, -, hj⟩ := mem_packsAt.1 hq
    exact name_inj (List.mem_of_getElem? hi) (List.mem_of_getElem? hj) hpq
  · rw [mem_packsAt]
    constructor
    · rintro ⟨j, hj, hp⟩
      obtain ⟨i, hi, hij⟩ := (hmem j).1 hj
      have hq := List.getElem?_eq_getElem (hs i hi)
      obtain ⟨r, hr, hqr⟩ := (reaches_iff hq).1 hij
      rw [hp] at hr
      rw [← Option.some.inj hr] at hqr
      exact ⟨_, mem_packsAt.2 ⟨i, hi, hq⟩, hqr⟩
    · rintro ⟨q, hq, hqp⟩
      obtain ⟨i, hi, hqi⟩ := mem_packsAt.1 hq
      obtain ⟨j, hj⟩ := List.mem_iff_getElem?.1 (hqp.mem (List.mem_of_getElem? hqi))
      exact ⟨j, (hmem j).2 ⟨i, hi, (reaches_iff hqi).2 ⟨p, hj, hqp⟩⟩, hj⟩
  · intro before p after hsplit name hname
    obtain ⟨front, back, rfl, hfront, hback⟩ := List.filterMap_eq_append_iff.1 hsplit
    obtain ⟨void, i, rest, rfl, hvoid, hi, -⟩ := List.filterMap_eq_cons_iff.1 hback
    obtain ⟨q, hpq, rfl⟩ := exists_dependency (List.mem_of_getElem? hi) hname
    obtain ⟨j, hj⟩ := List.mem_iff_getElem?.1 hpq.2.1
    have horder : front ++ (void ++ i :: rest) = (front ++ void) ++ i :: rest := by simp
    have hbefore : j ∈ front ++ void := hf.mem_before horder ((leads_iff hi).2 ⟨q, hj, hpq⟩)
    rcases List.mem_append.1 hbefore with hjf | hjv
    · rw [← hfront]
      exact Pack.name_mem_names (mem_packsAt.2 ⟨j, hjf, hj⟩)
    · rw [hvoid j hjv] at hj
      cases hj

theorem closure_ok_iff (hs : ∀ i ∈ seeds, i < c.packs.length) :
    (∃ order, c.closure seeds = .ok order) ↔ ∀ p ∈ c.packsAt seeds, c.CircleFree p := by
  rw [closure, Graph.finishOrder_ok_iff fun i hi => covers_of_lt (hs i hi)]
  constructor
  · intro h p hp q hpq
    obtain ⟨i, hi, hpi⟩ := mem_packsAt.1 hp
    obtain ⟨j, hj⟩ := List.mem_iff_getElem?.1 (hpq.mem (List.mem_of_getElem? hpi))
    rw [← onCircle_iff hj]
    exact (h i hi j ((reaches_iff hpi).2 ⟨q, hj, hpq⟩)).2
  · intro h i hi j hij
    have hpi := List.getElem?_eq_getElem (hs i hi)
    obtain ⟨q, hq, hpq⟩ := (reaches_iff hpi).1 hij
    refine ⟨⟨_, rfl⟩, ?_⟩
    rw [onCircle_iff hq]
    exact h _ (mem_packsAt.2 ⟨i, hi, hpi⟩) q hpq

/-- The closure of some packs begins with the closure of the first of them. -/
theorem closure_append_eq_ok {more : List Nat} (hs : ∀ i ∈ seeds ++ more, i < c.packs.length)
    (h : c.closure (seeds ++ more) = .ok order) :
    ∃ first, c.closure seeds = .ok first ∧ first <+: order := by
  obtain ⟨first, hf, hprefix⟩ :=
    Graph.finishOrder_append_eq_ok (fun i hi => covers_of_lt (hs i hi)) h
  refine ⟨first, ?_, hprefix⟩
  obtain ⟨hseeds, hmore⟩ := List.forall_mem_append.1 hs
  have hnodes : ∀ i, i ∈ (c.dependencyGraph seeds).nodes ↔
      i ∈ (c.dependencyGraph (seeds ++ more)).nodes := by
    intro i
    simp only [dependencyGraph, List.mem_append, List.mem_range]
    exact ⟨fun h => h.imp_right .inl,
      fun h => h.elim .inl fun h => h.elim (.inl <| hseeds i ·) (.inl <| hmore i ·)⟩
  rw [← hf]
  exact Graph.visitAll_congr hnodes rfl rfl [] [] seeds

theorem closure_eq_error {e : Error} (h : c.closure seeds = .error e) :
    ∃ path, e = .cyclicDependency path := by
  obtain ⟨i, -, hf⟩ := Graph.finishOrder_eq_error h
  cases hf with
  | stuck _ hn => cases hn
  | circle => exact ⟨_, rfl⟩

end PackChoice.Catalog
