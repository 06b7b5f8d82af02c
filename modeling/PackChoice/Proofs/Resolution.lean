import PackChoice.Proofs.Catalog.Closure
import PackChoice.Proofs.Sequencing
import PackChoice.Resolution

/-!
What a resolution holds. A request is about the required candidates and the requested packs
(`wanted`). A resolution that succeeds is an install order of these in which no two packs share an
exclude group (`resolve_eq_ok`), and it succeeds whenever the packs needed are free of circles and
exclusive (`resolve_ok_iff`).
-/

namespace PackChoice

/-- No two packs with a property share an exclude group. -/
def Exclusive (P : Pack → Prop) : Prop :=
  ∀ p q group, P p → P q → p.excludeGroup = some group → q.excludeGroup = some group → p = q

theorem Exclusive.mono {P Q : Pack → Prop} (h : Exclusive Q) (hPQ : ∀ p, P p → Q p) :
    Exclusive P :=
  fun p q group hp hq => h p q group (hPQ p hp) (hPQ q hq)

theorem mem_excludeGroups {packs : List Pack} {group : String} :
    group ∈ excludeGroups packs ↔ ∃ p ∈ packs, p.excludeGroup = some group := by
  rw [excludeGroups, NameSet.mem_ofList, List.mem_filterMap]

theorem length_le_one_iff {α : Type} {xs : List α} (h : xs.Nodup) :
    xs.length ≤ 1 ↔ ∀ x ∈ xs, ∀ y ∈ xs, x = y := by
  cases xs with
  | nil => simp
  | cons a xs =>
    cases xs with
    | nil => simp
    | cons b xs =>
      have hab : a ≠ b := fun he => (List.nodup_cons.1 h).1 (he ▸ List.mem_cons_self)
      refine ⟨fun hle => absurd hle (by simp), fun heq => absurd ?_ hab⟩
      exact heq a List.mem_cons_self b (List.mem_cons_of_mem _ List.mem_cons_self)

theorem checkExclusions_ok_iff_length {packs : List Pack} :
    checkExclusions packs = .ok () ↔
      ∀ group ∈ excludeGroups packs, (excludeGroupMembers packs group).length ≤ 1 := by
  rw [checkExclusions]
  split
  · next group hg =>
    have hlen : 1 < (excludeGroupMembers packs group).length := by
      simpa using List.find?_some hg
    refine ⟨fun he => (nomatch he), fun hle => ?_⟩
    have := hle group (List.mem_of_find?_eq_some hg)
    omega
  · next hnone =>
    refine ⟨fun _ group hg => ?_, fun _ => rfl⟩
    have := List.find?_eq_none.1 hnone group hg
    simp only [decide_eq_true_eq] at this
    omega

theorem checkExclusions_ok_iff {packs : List Pack} (h : packs.Nodup) :
    checkExclusions packs = .ok () ↔ Exclusive (· ∈ packs) := by
  have hmem : ∀ group p, p ∈ packs.filter (·.excludeGroup = some group) ↔
      p ∈ packs ∧ p.excludeGroup = some group := fun group p => by simp
  have hlen : ∀ group, (excludeGroupMembers packs group).length ≤ 1 ↔
      ∀ p ∈ packs.filter (·.excludeGroup = some group),
        ∀ q ∈ packs.filter (·.excludeGroup = some group), p = q := fun group => by
    rw [excludeGroupMembers, Pack.names, List.length_map, length_le_one_iff (h.filter _)]
  rw [checkExclusions_ok_iff_length]
  constructor
  · intro hle p q group hp hq hpg hqg
    have hone := (hlen group).1 (hle group (mem_excludeGroups.2 ⟨p, hp, hpg⟩))
    exact hone p ((hmem group p).2 ⟨hp, hpg⟩) q ((hmem group q).2 ⟨hq, hqg⟩)
  · intro hex group _
    refine (hlen group).2 fun p hp q hq => ?_
    obtain ⟨hp, hpg⟩ := (hmem group p).1 hp
    obtain ⟨hq, hqg⟩ := (hmem group q).1 hq
    exact hex p q group hp hq hpg hqg

namespace Catalog

open Relation (ReflTransGen)

variable {c : Catalog} {candidates packs : List Pack} {requested : List String} {name : String}
  {i : Nat}

theorem requestedIndex_eq_ok_iff (hc : ∀ p ∈ candidates, p ∈ c.packs) :
    c.requestedIndex candidates name = .ok i ↔
      ∃ p ∈ candidates, c.packs[i]? = some p ∧ p.name = name := by
  rw [requestedIndex]
  split
  · next hnone =>
    refine ⟨fun h => (nomatch h), fun ⟨p, hp, _, hname⟩ => ?_⟩
    rw [indexOf?_eq_none_iff, ← hname] at hnone
    exact absurd (Pack.name_mem_names (hc p hp)) hnone
  · next j hj =>
    obtain ⟨q, hq, rfl⟩ := indexOf?_eq_some_iff.1 hj
    split
    · next hm =>
      obtain ⟨r, hr, hname⟩ := mem_indexesOf.1 hm
      rw [hq] at hr
      obtain ⟨p, hp, hpq⟩ := Pack.mem_names.1 (Option.some.inj hr ▸ hname)
      obtain rfl := name_inj (hc p hp) (List.mem_of_getElem? hq) hpq
      constructor
      · intro h
        exact ⟨p, hp, Except.ok.inj h ▸ hq, rfl⟩
      · rintro ⟨p', _, hp', hname'⟩
        rw [position_inj hp' hq hname']
    · next hm =>
      refine ⟨fun h => (nomatch h), fun ⟨p, hp, hpi, hname⟩ => absurd ?_ hm⟩
      rw [← position_inj hpi hq hname]
      exact mem_indexesOf.2 ⟨p, hpi, Pack.name_mem_names hp⟩

/-- The candidates that a request is about. -/
def wanted (candidates : List Pack) (requested : List String) : List Pack :=
  candidates.filter fun p => p.required || requested.contains p.name

theorem mem_wanted {p : Pack} :
    p ∈ wanted candidates requested ↔ p ∈ candidates ∧ (p.required = true ∨ p.name ∈ requested) := by
  simp [wanted]

variable {indexes : List Nat}

theorem lt_of_mem_seeds (hc : ∀ p ∈ candidates, p ∈ c.packs)
    (h : requested.mapM (c.requestedIndex candidates) = .ok indexes) :
    ∀ i ∈ c.requiredIndexes candidates ++ indexes, i < c.packs.length := by
  intro i hi
  rcases List.mem_append.1 hi with hi | hi
  · exact lt_of_mem_indexesOf i hi
  · obtain ⟨name, -, hname⟩ := (mem_of_mapM_eq_ok h).1 hi
    obtain ⟨p, -, hp, -⟩ := (requestedIndex_eq_ok_iff hc).1 hname
    exact lt_of_getElem? hp

theorem mem_packsAt_requested (hc : ∀ p ∈ candidates, p ∈ c.packs)
    (h : requested.mapM (c.requestedIndex candidates) = .ok indexes) {p : Pack} :
    p ∈ c.packsAt indexes ↔ p ∈ candidates ∧ p.name ∈ requested := by
  rw [mem_packsAt]
  constructor
  · rintro ⟨i, hi, hpi⟩
    obtain ⟨name, hname, hni⟩ := (mem_of_mapM_eq_ok h).1 hi
    obtain ⟨q, hq, hqi, rfl⟩ := (requestedIndex_eq_ok_iff hc).1 hni
    rw [hpi] at hqi
    obtain rfl := Option.some.inj hqi
    exact ⟨hq, hname⟩
  · rintro ⟨hp, hname⟩
    obtain ⟨i, hi⟩ := exists_of_mapM_eq_ok h p.name hname
    obtain ⟨q, hq, hqi, hqp⟩ := (requestedIndex_eq_ok_iff hc).1 hi
    obtain rfl := name_inj (hc q hq) (hc p hp) hqp
    exact ⟨i, (mem_of_mapM_eq_ok h).2 ⟨_, hname, hi⟩, hqi⟩

theorem mem_packsAt_seeds (hc : ∀ p ∈ candidates, p ∈ c.packs)
    (h : requested.mapM (c.requestedIndex candidates) = .ok indexes) {p : Pack} :
    p ∈ c.packsAt (c.requiredIndexes candidates ++ indexes) ↔ p ∈ wanted candidates requested := by
  have happend : c.packsAt (c.requiredIndexes candidates ++ indexes) =
      c.packsAt (c.requiredIndexes candidates) ++ c.packsAt indexes := List.filterMap_append
  have hknown : ∀ q ∈ candidates.filter (·.required), q ∈ c.packs :=
    fun q hq => hc q (List.mem_of_mem_filter hq)
  have hrequired : p ∈ c.packsAt (c.requiredIndexes candidates) ↔
      p ∈ candidates ∧ p.required = true :=
    (mem_packsAt_indexesOf_names hknown).trans List.mem_filter
  rw [happend, List.mem_append, hrequired, mem_packsAt_requested hc h, mem_wanted, and_or_left]

theorem resolve_eq_ok (hc : ∀ p ∈ candidates, p ∈ c.packs)
    (h : c.resolve candidates requested = .ok packs) :
    c.InstallOrder (wanted candidates requested) packs ∧ Exclusive (· ∈ packs) ∧
      ∀ name ∈ requested, name ∈ Pack.names candidates := by
  obtain ⟨indexes, hm, h⟩ := bind_eq_ok_iff.1 h
  obtain ⟨order, ho, h⟩ := bind_eq_ok_iff.1 h
  obtain ⟨⟨⟩, hex, h⟩ := bind_eq_ok_iff.1 h
  rw [← pure_eq_ok_iff.1 h]
  have hio := (closure_eq_ok (lt_of_mem_seeds hc hm) ho).congr fun p => mem_packsAt_seeds hc hm
  refine ⟨hio, (checkExclusions_ok_iff hio.nodup).1 hex, fun name hname => ?_⟩
  obtain ⟨i, hi⟩ := exists_of_mapM_eq_ok hm name hname
  obtain ⟨p, hp, -, rfl⟩ := (requestedIndex_eq_ok_iff hc).1 hi
  exact Pack.name_mem_names hp

theorem mem_of_resolve (hc : ∀ p ∈ candidates, p ∈ c.packs)
    (h : c.resolve candidates requested = .ok packs) : ∀ p ∈ packs, p ∈ c.packs :=
  (resolve_eq_ok hc h).1.known fun q hq => hc q (mem_wanted.1 hq).1

theorem resolve_ok_iff (hc : ∀ p ∈ candidates, p ∈ c.packs) :
    (∃ packs, c.resolve candidates requested = .ok packs) ↔
      (∀ name ∈ requested, name ∈ Pack.names candidates) ∧
        (∀ p ∈ wanted candidates requested, c.CircleFree p) ∧
          Exclusive fun p => ∃ q ∈ wanted candidates requested, c.Needs q p := by
  constructor
  · rintro ⟨packs, h⟩
    obtain ⟨hio, hex, hmem⟩ := resolve_eq_ok hc h
    refine ⟨hmem, ?_, hex.mono fun p hp => (hio.mem_iff p).2 hp⟩
    obtain ⟨indexes, hm, h⟩ := bind_eq_ok_iff.1 h
    obtain ⟨order, ho, -⟩ := bind_eq_ok_iff.1 h
    intro p hp
    exact (closure_ok_iff (lt_of_mem_seeds hc hm)).1 ⟨order, ho⟩ p ((mem_packsAt_seeds hc hm).2 hp)
  · rintro ⟨hmem, hfree, hex⟩
    obtain ⟨indexes, hm⟩ : ∃ indexes, requested.mapM (c.requestedIndex candidates) = .ok indexes := by
      refine mapM_ok fun name hname => ?_
      obtain ⟨p, hp, rfl⟩ := Pack.mem_names.1 (hmem name hname)
      obtain ⟨i, hi⟩ := List.mem_iff_getElem?.1 (hc p hp)
      exact ⟨i, (requestedIndex_eq_ok_iff hc).2 ⟨p, hp, hi, rfl⟩⟩
    obtain ⟨order, ho⟩ := (closure_ok_iff (lt_of_mem_seeds hc hm)).2 fun p hp =>
      hfree p ((mem_packsAt_seeds hc hm).1 hp)
    have hio := (closure_eq_ok (lt_of_mem_seeds hc hm) ho).congr fun p => mem_packsAt_seeds hc hm
    have hcheck := (checkExclusions_ok_iff hio.nodup).2 (hex.mono fun p hp => (hio.mem_iff p).1 hp)
    refine ⟨c.packsAt order, ?_⟩
    rw [resolve, hm]
    refine bind_eq_ok_iff.2 ⟨_, rfl, bind_eq_ok_iff.2 ⟨_, ho, bind_eq_ok_iff.2 ⟨_, hcheck, rfl⟩⟩⟩

/-- What is closed under dependencies, keeps to the exclude groups and comes from candidates
resolves to itself when these candidates are requested. -/
theorem resolve_of_closed {P : Pack → Prop} {chosen : List Pack}
    (hc : ∀ p ∈ candidates, p ∈ c.packs)
    (hclosed : ∀ p q, c.DependsOn p q → P p → P q) (hex : Exclusive P)
    (hfree : ∀ p ∈ candidates, P p → c.CircleFree p)
    (hreq : ∀ p ∈ candidates, p.required = true → P p)
    (hsource : ∀ p, P p → ∃ q ∈ candidates, P q ∧ c.Needs q p)
    (hchosen : ∀ p, p ∈ chosen ↔ p ∈ candidates ∧ P p) :
    ∃ packs, c.resolve candidates (Pack.names chosen) = .ok packs ∧ ∀ p, p ∈ packs ↔ P p := by
  have hknown : ∀ p ∈ chosen, p ∈ c.packs := fun p hp => hc p ((hchosen p).1 hp).1
  have hwanted : ∀ p, p ∈ wanted candidates (Pack.names chosen) ↔ p ∈ candidates ∧ P p := by
    intro p
    rw [mem_wanted]
    refine and_congr_right fun hp => ?_
    rw [name_mem_names_iff hknown (hc p hp), hchosen]
    exact ⟨fun h => h.elim (hreq p hp) And.right, fun h => .inr ⟨hp, h⟩⟩
  have hneeds : ∀ p, (∃ q ∈ wanted candidates (Pack.names chosen), c.Needs q p) ↔ P p := by
    intro p
    constructor
    · rintro ⟨q, hq, hqp⟩
      induction hqp with
      | refl => exact ((hwanted q).1 hq).2
      | tail _ hrs ih => exact hclosed _ _ hrs ih
    · intro hp
      obtain ⟨q, hq, hPq, hqp⟩ := hsource p hp
      exact ⟨q, (hwanted q).2 ⟨hq, hPq⟩, hqp⟩
  obtain ⟨packs, hr⟩ : ∃ packs, c.resolve candidates (Pack.names chosen) = .ok packs := by
    refine (resolve_ok_iff hc).2 ⟨fun name hname => ?_, fun p hp => ?_, ?_⟩
    · obtain ⟨p, hp, rfl⟩ := Pack.mem_names.1 hname
      exact Pack.name_mem_names ((hchosen p).1 hp).1
    · obtain ⟨hpc, hPp⟩ := (hwanted p).1 hp
      exact hfree p hpc hPp
    · exact hex.mono fun p hp => (hneeds p).1 hp
  exact ⟨packs, hr, fun p => ((resolve_eq_ok hc hr).1.mem_iff p).trans (hneeds p)⟩

/-- A resolution can be had again by requesting the candidates in it. -/
theorem resolve_again {chosen : List Pack} (hc : ∀ p ∈ candidates, p ∈ c.packs)
    (h : c.resolve candidates requested = .ok packs)
    (hchosen : ∀ p, p ∈ chosen ↔ p ∈ candidates ∧ p ∈ packs) :
    ∃ packs', c.resolve candidates (Pack.names chosen) = .ok packs' ∧
      ∀ p, p ∈ packs' ↔ p ∈ packs := by
  obtain ⟨hio, hex, -⟩ := resolve_eq_ok hc h
  obtain ⟨-, hfree, -⟩ := (resolve_ok_iff hc).1 ⟨packs, h⟩
  refine resolve_of_closed hc (fun p q hpq hp => hio.mem_of_needs hp (ReflTransGen.single hpq)) hex
    (fun p _ hp => ?_) (fun p hp hreq => hio.mem_of_seed (mem_wanted.2 ⟨hp, .inl hreq⟩))
    (fun p hp => ?_) hchosen
  · obtain ⟨q, hq, hqp⟩ := (hio.mem_iff p).1 hp
    exact fun r hpr => hfree q hq r (hqp.trans hpr)
  · obtain ⟨q, hq, hqp⟩ := (hio.mem_iff p).1 hp
    exact ⟨q, (mem_wanted.1 hq).1, hio.mem_of_seed hq, hqp⟩

end Catalog

end PackChoice
