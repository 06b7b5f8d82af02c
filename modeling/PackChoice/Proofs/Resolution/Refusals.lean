import Mathlib.Data.List.Permutation
import PackChoice.Proofs.Resolution

/-!
What a request comes to, in every case (`resolve_exact`). When all requested names are those of
candidates, a resolution takes the packs that the request needs in an order for installation and
checks their exclude groups (`resolve_of_available`). So faults are found in this order: the first
requested name that no candidate has, a circle, and then the first exclude group that two packs
share (`Refusal`).
-/

namespace PackChoice

/-! ## Exclude groups -/

theorem shared_iff {packs : List Pack} (h : packs.Nodup) {group : String} :
    1 < (excludeGroupMembers packs group).length ↔
      ∃ p ∈ packs, ∃ q ∈ packs, p ≠ q ∧ p.excludeGroup = some group ∧
        q.excludeGroup = some group := by
  rw [excludeGroupMembers, Pack.names, List.length_map, ← Nat.not_le,
    length_le_one_iff (h.filter _)]
  simp only [List.mem_filter, decide_eq_true_eq]
  constructor
  · intro hne
    by_contra hno
    exact hne fun p hp q hq => by_contra fun hpq => hno ⟨p, hp.1, q, hq.1, hpq, hp.2, hq.2⟩
  · rintro ⟨p, hp, q, hq, hpq, hpg, hqg⟩ heq
    exact hpq (heq p ⟨hp, hpg⟩ q ⟨hq, hqg⟩)

theorem checkExclusions_eq_error {packs : List Pack} {e : Error}
    (h : checkExclusions packs = .error e) :
    ∃ group, e = .exclusionViolated group (excludeGroupMembers packs group) ∧
      1 < (excludeGroupMembers packs group).length ∧
        ∀ other, 1 < (excludeGroupMembers packs other).length →
          other = group ∨ Text.precedes group other = true := by
  unfold checkExclusions at h
  split at h
  · next group hg =>
    obtain ⟨hshared, before, after, hsplit, hbefore⟩ := List.find?_eq_some_iff_append.1 hg
    refine ⟨group, (Except.error.inj h).symm, of_decide_eq_true hshared, fun other hother => ?_⟩
    have hmem : other ∈ (excludeGroups packs).toList := by
      obtain ⟨name, hname⟩ := List.exists_mem_of_length_pos (Nat.lt_of_succ_lt hother)
      obtain ⟨p, hp, -⟩ := Pack.mem_names.1 hname
      obtain ⟨hp, hpg⟩ := List.mem_filter.1 hp
      exact mem_excludeGroups.2 ⟨p, hp, of_decide_eq_true hpg⟩
    have hincreasing := (excludeGroups packs).increasing
    rw [hsplit] at hmem hincreasing
    rcases List.mem_append.1 hmem with hmem | hmem
    · have := hbefore other hmem
      simp [hother] at this
    · refine (List.mem_cons.1 hmem).imp_right fun hmem => ?_
      have hlater := (List.pairwise_append.1 hincreasing).2.1
      exact (List.pairwise_cons.1 hlater).1 other hmem
  · cases h

namespace Catalog

variable {c : Catalog} {candidates packs : List Pack} {requested : List String} {name : String}

/-! ## Requested names -/

theorem requestedIndex_eq_error (hc : ∀ p ∈ candidates, p ∈ c.packs) {e : Error}
    (h : c.requestedIndex candidates name = .error e) :
    name ∉ Pack.names candidates ∧
      (name ∉ c.names ∧ e = .unknownPack name none ∨
        name ∈ c.names ∧ e = .packUnavailable name) := by
  have hmiss : name ∉ Pack.names candidates := by
    intro hname
    obtain ⟨p, hp, rfl⟩ := Pack.mem_names.1 hname
    obtain ⟨i, hi⟩ := List.mem_iff_getElem?.1 (hc p hp)
    rw [(requestedIndex_eq_ok_iff hc).2 ⟨p, hp, hi, rfl⟩] at h
    cases h
  refine ⟨hmiss, ?_⟩
  unfold requestedIndex at h
  split at h
  · next hnone => exact .inl ⟨indexOf?_eq_none_iff.1 hnone, (Except.error.inj h).symm⟩
  · next i hi =>
    split at h
    · cases h
    · obtain ⟨p, hp, rfl⟩ := indexOf?_eq_some_iff.1 hi
      exact .inr ⟨Pack.name_mem_names (List.mem_of_getElem? hp), (Except.error.inj h).symm⟩

theorem requestedIndexes_of_available (hc : ∀ p ∈ candidates, p ∈ c.packs)
    (h : ∀ name ∈ requested, name ∈ Pack.names candidates) :
    requested.mapM (c.requestedIndex candidates) = .ok (c.indexesOf requested) := by
  induction requested with
  | nil => rfl
  | cons name requested ih =>
    obtain ⟨hname, hrest⟩ := List.forall_mem_cons.1 h
    obtain ⟨p, hp, rfl⟩ := Pack.mem_names.1 hname
    obtain ⟨i, hi⟩ := List.mem_iff_getElem?.1 (hc p hp)
    have hindexes : c.indexesOf (p.name :: requested) = i :: c.indexesOf requested :=
      List.filterMap_cons_some (indexOf?_eq_some_iff.2 ⟨p, hi, rfl⟩)
    rw [List.mapM_cons, (requestedIndex_eq_ok_iff hc).2 ⟨p, hp, hi, rfl⟩, ih hrest, hindexes]
    rfl

/-- The packs that a request needs in an order for installation, whatever their exclude groups. -/
def orderedPacks (c : Catalog) (candidates : List Pack) (requested : List String) :
    Except Error (List Pack) := do
  return c.packsAt (← c.closure (c.requiredIndexes candidates ++ c.indexesOf requested))

theorem resolve_of_available (hc : ∀ p ∈ candidates, p ∈ c.packs)
    (h : ∀ name ∈ requested, name ∈ Pack.names candidates) :
    c.resolve candidates requested = do
      let packs ← c.orderedPacks candidates requested
      checkExclusions packs
      return packs := by
  unfold resolve orderedPacks
  rw [requestedIndexes_of_available hc h]
  show (do
    let order ← c.closure (c.requiredIndexes candidates ++ c.indexesOf requested)
    checkExclusions (c.packsAt order)
    return c.packsAt order) = _
  cases c.closure (c.requiredIndexes candidates ++ c.indexesOf requested) <;> rfl

theorem lt_of_mem_seeds_of_available :
    ∀ i ∈ c.requiredIndexes candidates ++ c.indexesOf requested, i < c.packs.length :=
  List.forall_mem_append.2 ⟨lt_of_mem_indexesOf, lt_of_mem_indexesOf⟩

theorem mem_packsAt_seeds_of_available (hc : ∀ p ∈ candidates, p ∈ c.packs)
    (h : ∀ name ∈ requested, name ∈ Pack.names candidates) {p : Pack} :
    p ∈ c.packsAt (c.requiredIndexes candidates ++ c.indexesOf requested) ↔
      p ∈ wanted candidates requested :=
  mem_packsAt_seeds hc (requestedIndexes_of_available hc h)

theorem orderedPacks_eq_ok (hc : ∀ p ∈ candidates, p ∈ c.packs)
    (h : ∀ name ∈ requested, name ∈ Pack.names candidates)
    (ho : c.orderedPacks candidates requested = .ok packs) :
    c.InstallOrder (wanted candidates requested) packs ∧
      (∀ p ∈ wanted candidates requested, c.CircleFree p) ∧
        ∃ first, c.closure (c.requiredIndexes candidates) = .ok first ∧
          c.packsAt first <+: packs := by
  obtain ⟨order, hclosure, ho⟩ := bind_eq_ok_iff.1 ho
  obtain rfl := pure_eq_ok_iff.1 ho
  have hio := closure_eq_ok lt_of_mem_seeds_of_available hclosure
  have hfree := (closure_ok_iff lt_of_mem_seeds_of_available).1 ⟨order, hclosure⟩
  obtain ⟨first, hfirst, hprefix⟩ := closure_append_eq_ok lt_of_mem_seeds_of_available hclosure
  exact ⟨hio.congr fun p => mem_packsAt_seeds_of_available hc h,
    fun p hp => hfree p ((mem_packsAt_seeds_of_available hc h).2 hp),
    first, hfirst, hprefix.filterMap _⟩

theorem orderedPacks_eq_error (hc : ∀ p ∈ candidates, p ∈ c.packs)
    (h : ∀ name ∈ requested, name ∈ Pack.names candidates) {e : Error}
    (he : c.orderedPacks candidates requested = .error e) :
    (∃ path, e = .cyclicDependency path) ∧
      ∃ p ∈ wanted candidates requested, ¬ c.CircleFree p := by
  have hclosure : c.closure (c.requiredIndexes candidates ++ c.indexesOf requested) = .error e := by
    rcases bind_eq_error_iff.1 he with hclosure | ⟨order, -, he⟩
    · exact hclosure
    · cases he
  refine ⟨closure_eq_error hclosure, ?_⟩
  by_contra hno
  obtain ⟨order, ho⟩ := (closure_ok_iff lt_of_mem_seeds_of_available).2 fun p hp =>
    by_contra fun hp' => hno ⟨p, (mem_packsAt_seeds_of_available hc h).1 hp, hp'⟩
  rw [hclosure] at ho
  cases ho

/-! ## Refusals -/

/-- The first requested name that no candidate has. -/
def FirstMissing (candidates : List Pack) (requested : List String) (name : String) : Prop :=
  ∃ before after, requested = before ++ name :: after ∧
    (∀ earlier ∈ before, earlier ∈ Pack.names candidates) ∧ name ∉ Pack.names candidates

/-- Two packs that a request needs share an exclude group. -/
def Clash (c : Catalog) (candidates : List Pack) (requested : List String) (group : String) :
    Prop :=
  ∃ p q, p ≠ q ∧ (∃ w ∈ wanted candidates requested, c.Needs w p) ∧
    (∃ w ∈ wanted candidates requested, c.Needs w q) ∧
      p.excludeGroup = some group ∧ q.excludeGroup = some group

/-- Why a request is refused. Each cause comes up only when there is none of those before it. -/
inductive Refusal (c : Catalog) (candidates : List Pack) (requested : List String) : Error → Prop
    where
  | unknown {name : String} : FirstMissing candidates requested name → name ∉ c.names →
    Refusal c candidates requested (.unknownPack name none)
  | unavailable {name : String} : FirstMissing candidates requested name → name ∈ c.names →
    Refusal c candidates requested (.packUnavailable name)
  | circle {path : List String} : (∀ name ∈ requested, name ∈ Pack.names candidates) →
    (∃ p ∈ wanted candidates requested, ¬ c.CircleFree p) →
    Refusal c candidates requested (.cyclicDependency path)
  /-- The group is the first in the order of names, and its packs are told as they would have been
  installed. -/
  | clash {packs : List Pack} {group : String} :
    (∀ name ∈ requested, name ∈ Pack.names candidates) →
    (∀ p ∈ wanted candidates requested, c.CircleFree p) →
    c.orderedPacks candidates requested = .ok packs →
    c.InstallOrder (wanted candidates requested) packs →
    c.Clash candidates requested group →
    (∀ other, c.Clash candidates requested other →
      other = group ∨ Text.precedes group other = true) →
    Refusal c candidates requested
      (.exclusionViolated group (Pack.names (packs.filter (·.excludeGroup = some group))))

theorem InstallOrder.shared_iff_clash (h : c.InstallOrder (wanted candidates requested) packs)
    {group : String} :
    1 < (excludeGroupMembers packs group).length ↔ c.Clash candidates requested group := by
  rw [shared_iff h.nodup]
  constructor
  · rintro ⟨p, hp, q, hq, hpq, hpg, hqg⟩
    exact ⟨p, q, hpq, (h.mem_iff p).1 hp, (h.mem_iff q).1 hq, hpg, hqg⟩
  · rintro ⟨p, q, hpq, hp, hq, hpg, hqg⟩
    exact ⟨p, (h.mem_iff p).2 hp, q, (h.mem_iff q).2 hq, hpq, hpg, hqg⟩

theorem refusal_of_requested (hc : ∀ p ∈ candidates, p ∈ c.packs) {e : Error}
    (h : requested.mapM (c.requestedIndex candidates) = .error e) :
    c.Refusal candidates requested e := by
  obtain ⟨before, name, after, hsplit, hbefore, hname⟩ := first_of_mapM_eq_error h
  obtain ⟨hmiss, hcause⟩ := requestedIndex_eq_error hc hname
  have hfirst : FirstMissing candidates requested name := by
    refine ⟨before, after, hsplit, fun earlier he => ?_, hmiss⟩
    obtain ⟨i, hi⟩ := hbefore earlier he
    obtain ⟨p, hp, -, rfl⟩ := (requestedIndex_eq_ok_iff hc).1 hi
    exact Pack.name_mem_names hp
  rcases hcause with ⟨hn, rfl⟩ | ⟨hn, rfl⟩
  · exact .unknown hfirst hn
  · exact .unavailable hfirst hn

theorem refusal_of_available (hc : ∀ p ∈ candidates, p ∈ c.packs)
    (h : ∀ name ∈ requested, name ∈ Pack.names candidates) {e : Error}
    (he : c.resolve candidates requested = .error e) : c.Refusal candidates requested e := by
  rw [resolve_of_available hc h] at he
  rcases bind_eq_error_iff.1 he with ho | ⟨packs, ho, he⟩
  · obtain ⟨⟨path, rfl⟩, hcircle⟩ := orderedPacks_eq_error hc h ho
    exact .circle h hcircle
  · obtain ⟨hio, hfree, -⟩ := orderedPacks_eq_ok hc h ho
    have hcheck : checkExclusions packs = .error e := by
      rcases bind_eq_error_iff.1 he with hcheck | ⟨u, -, he⟩
      · exact hcheck
      · cases he
    obtain ⟨group, rfl, hshared, hleast⟩ := checkExclusions_eq_error hcheck
    exact .clash h hfree ho hio (hio.shared_iff_clash.1 hshared)
      fun other hother => hleast other (hio.shared_iff_clash.2 hother)

theorem refusal_of_resolve (hc : ∀ p ∈ candidates, p ∈ c.packs) {e : Error}
    (h : c.resolve candidates requested = .error e) : c.Refusal candidates requested e := by
  cases hm : requested.mapM (c.requestedIndex candidates) with
  | error e' =>
    unfold resolve at h
    rw [hm] at h
    rw [← Except.error.inj h]
    exact refusal_of_requested hc hm
  | ok indexes =>
    refine refusal_of_available hc (fun name hname => ?_) h
    obtain ⟨i, hi⟩ := exists_of_mapM_eq_ok hm name hname
    obtain ⟨p, hp, -, rfl⟩ := (requestedIndex_eq_ok_iff hc).1 hi
    exact Pack.name_mem_names hp

/-- A request succeeds exactly when its names are those of candidates and the packs it needs are
free of circles and keep to their exclude groups. It gives these packs, those that the required
candidates need alone in front; otherwise it is refused for the first cause there is. -/
theorem resolve_exact (hc : ∀ p ∈ candidates, p ∈ c.packs) (requested : List String) :
    ((∃ packs, c.resolve candidates requested = .ok packs) ↔
      (∀ name ∈ requested, name ∈ c.names ∧ name ∈ Pack.names candidates) ∧
        (∀ p ∈ wanted candidates requested, c.CircleFree p) ∧
          Exclusive fun p => ∃ w ∈ wanted candidates requested, c.Needs w p) ∧
    (∀ packs, c.resolve candidates requested = .ok packs →
      c.InstallOrder (wanted candidates requested) packs ∧
        ∃ first, c.closure (c.requiredIndexes candidates) = .ok first ∧
          c.packsAt first <+: packs) ∧
    ∀ e, c.resolve candidates requested = .error e → c.Refusal candidates requested e := by
  have hknown : ∀ name ∈ Pack.names candidates, name ∈ c.names := by
    intro name hname
    obtain ⟨p, hp, rfl⟩ := Pack.mem_names.1 hname
    exact Pack.name_mem_names (hc p hp)
  refine ⟨?_, fun packs h => ?_, fun e => refusal_of_resolve hc⟩
  · rw [resolve_ok_iff hc]
    exact and_congr_left fun _ =>
      ⟨fun h name hname => ⟨hknown name (h name hname), h name hname⟩,
        fun h name hname => (h name hname).2⟩
  · have hnames := (resolve_eq_ok hc h).2.2
    rw [resolve_of_available hc hnames] at h
    obtain ⟨ordered, ho, h⟩ := bind_eq_ok_iff.1 h
    obtain ⟨u, -, h⟩ := bind_eq_ok_iff.1 h
    obtain rfl := pure_eq_ok_iff.1 h
    obtain ⟨hio, -, hfirst⟩ := orderedPacks_eq_ok hc hnames ho
    exact ⟨hio, hfirst⟩

/-! ## A small catalog -/

/-- Six packs: `base` always comes along, `app` needs it, and `mix` needs two packs that exclude
each other. -/
def easelPacks : List Pack := [
  { name := "base", required := true },
  { name := "lib" },
  { name := "app", dependencies := ["lib", "base"] },
  { name := "red", excludeGroup := some "colour" },
  { name := "blue", excludeGroup := some "colour" },
  { name := "mix", dependencies := ["red", "blue"] }]

theorem easel_builds : (ofPacks easelPacks).toOption.isSome = true := by cbv

/-- The catalog of `easelPacks`. -/
def easel : Catalog := (ofPacks easelPacks).toOption.get easel_builds

/-- The packs of `easel` but `lib`. -/
def easelCandidates : List Pack := easel.packs.filter (·.name ≠ "lib")

/-- `lib` is no candidate: it comes in with `app` but cannot be requested. -/
theorem easel_resolve_exact : (∀ p ∈ easelCandidates, p ∈ easel.packs) ∧
    (∃ packs first, easel.resolve easelCandidates ["app"] = .ok packs ∧
      Pack.names packs = ["base", "lib", "app"] ∧
      easel.InstallOrder (wanted easelCandidates ["app"]) packs ∧
      easel.closure (easel.requiredIndexes easelCandidates) = .ok first ∧
      easel.packsAt first <+: packs) ∧
    easel.Refusal easelCandidates ["app", "lib", "mix"] (.packUnavailable "lib") ∧
    easel.Refusal easelCandidates ["mix"] (.exclusionViolated "colour" ["red", "blue"]) := by
  have hc : ∀ p ∈ easelCandidates, p ∈ easel.packs := fun p => List.mem_of_mem_filter
  have happ : (easel.resolve easelCandidates ["app"]).toOption.map Pack.names =
      some ["base", "lib", "app"] := by cbv
  have hlib : easel.resolve easelCandidates ["app", "lib", "mix"] =
      .error (.packUnavailable "lib") := by cbv
  have hmix : easel.resolve easelCandidates ["mix"] =
      .error (.exclusionViolated "colour" ["red", "blue"]) := by cbv
  refine ⟨hc, ?_, (resolve_exact hc _).2.2 _ hlib, (resolve_exact hc _).2.2 _ hmix⟩
  cases hr : easel.resolve easelCandidates ["app"] with
  | error e =>
    rw [hr] at happ
    cases happ
  | ok packs =>
    rw [hr] at happ
    obtain ⟨hio, first, hfirst, hprefix⟩ := (resolve_exact hc _).2.1 packs hr
    exact ⟨packs, first, rfl, Option.some.inj happ, hio, hfirst, hprefix⟩

end Catalog

end PackChoice
