import Mathlib.Data.List.Forall2
import PackChoice.Catalog.Dependencies
import PackChoice.Proofs.Catalog.Closure
import PackChoice.Proofs.Sequencing

/-!
Which packs make a catalog, and what its dependencies are as a graph. The three checks, made one
after another, come to one condition on the packs (`ofPacks_ok_iff`). With it keys tell packs apart,
so that a pack is found again by its key and by its name, and every dependency has a position. The
graph may hold the dependencies as edges in any order and several times between the same packs:
each edge keeps its place among the dependencies of its pack, and sorted by these the edges from a
pack lead where the pack says (`targetsInOrder_eq`). The whole is `ofPacks_exact`.
-/

namespace PackChoice.Catalog

variable {c : Catalog} {packs : List Pack} {p q : Pack} {i : Nat}

/-! ## Packs that make a catalog -/

/-- Packs that can be told apart and refer only to each other. -/
structure Consistent (packs : List Pack) : Prop where
  names_distinct : packs.Pairwise fun p q => p.name ≠ q.name
  ids_distinct : packs.Pairwise fun p q => ∀ id, p.id = some id → q.id ≠ some id
  /-- The id of a pack may be its own name. -/
  ids_no_names : packs.Pairwise fun p q => p.id ≠ some q.name ∧ q.id ≠ some p.name
  references_known : ∀ p ∈ packs, ∀ name ∈ p.dependencies ++ p.parent.toList,
    ∃ q ∈ packs, q.name = name

theorem consistent (c : Catalog) : Consistent c.packs where
  names_distinct := List.pairwise_map.1 c.names_nodup
  ids_distinct := by
    refine (List.pairwise_filterMap.1 c.ids_nodup).imp fun h id hp hq => ?_
    exact h id hp id hq rfl
  ids_no_names := by
    have hne : ∀ p ∈ c.packs, ∀ q ∈ c.packs, p ≠ q → p.id ≠ some q.name := by
      intro p hp q hq hpq hid
      exact hpq (name_inj hp hq (c.id_not_name p hp _ hid (Pack.name_mem_names hq)).symm)
    exact c.packs_nodup.pairwise_of_forall_ne fun p hp q hq hpq =>
      ⟨hne p hp q hq hpq, hne q hq p hp hpq.symm⟩
  references_known p hp name hname := Pack.mem_names.1 (c.references_known p hp name hname)

namespace Consistent

theorem names_nodup (h : Consistent packs) : (Pack.names packs).Nodup :=
  List.pairwise_map.2 h.names_distinct

theorem ids_nodup (h : Consistent packs) : (packs.filterMap Pack.id).Nodup := by
  refine List.pairwise_filterMap.2 (h.ids_distinct.imp ?_)
  rintro p q hne id hp id' hq rfl
  exact hne id hp hq

theorem id_not_name (h : Consistent packs) (hp : p ∈ packs) {id : String} (hid : p.id = some id)
    (hname : id ∈ Pack.names packs) : id = p.name := by
  obtain ⟨q, hq, rfl⟩ := Pack.mem_names.1 hname
  by_contra hne
  have hsymm : Std.Symm fun p q : Pack => p.id ≠ some q.name ∧ q.id ≠ some p.name :=
    ⟨fun _ _ hpq => hpq.symm⟩
  exact (h.ids_no_names.forall hp hq fun hpq => hne (congrArg Pack.name hpq).symm).1 hid

end Consistent

theorem ofPacks_ok (h : Consistent packs) : ∃ c, ofPacks packs = .ok c := by
  have hnames : repeated? [] (Pack.names packs) = none :=
    repeated?_eq_none_iff.2 ⟨h.names_nodup, fun _ _ => List.not_mem_nil⟩
  have hids : clashingId? (Pack.names packs) [] packs = none :=
    clashingId?_eq_none_iff.2 ⟨⟨h.ids_nodup, fun _ _ => List.not_mem_nil⟩,
      fun p hp id hid hname => h.id_not_name hp hid hname⟩
  have hreferences : ∀ p ∈ packs, unknownReference? (Pack.names packs) p = none := by
    intro p hp
    refine unknownReference?_eq_none_iff.2 fun name hname => ?_
    exact Pack.mem_names.2 (h.references_known p hp name hname)
  rw [ofPacks]
  split
  · next name hn =>
    rw [hnames] at hn
    cases hn
  · split
    · next id hi =>
      rw [hids] at hi
      cases hi
    · split
      · next p hr =>
        have hunknown := List.find?_some hr
        rw [hreferences p (List.mem_of_find?_eq_some hr)] at hunknown
        cases hunknown
      · exact ⟨_, rfl⟩

theorem ofPacks_ok_iff : (∃ c, ofPacks packs = .ok c) ↔ Consistent packs := by
  constructor
  · rintro ⟨c, hc⟩
    rw [← packs_of_ofPacks hc]
    exact c.consistent
  · exact ofPacks_ok

/-! ## Dependencies as edges -/

/-- A dependency of the pack at one position on the pack at another one. -/
structure Edge where
  source : Nat
  target : Nat
  /-- The place of the dependency in the list of its pack. -/
  place : Nat
deriving DecidableEq

/-- The dependencies of a pack at a position, in the order declared. -/
def edgesFrom (c : Catalog) (i : Nat) (p : Pack) : List Edge :=
  p.dependencies.zipIdx.filterMap fun x => (c.indexOf? x.1).map fun target => ⟨i, target, x.2⟩

/-- The dependencies of all packs. -/
def edges (c : Catalog) : List Edge := c.packs.zipIdx.flatMap fun x => c.edgesFrom x.2 x.1

/-- Where edges lead, in the order of their places. -/
def targetsInOrder (edges : List Edge) : List Nat :=
  (edges.mergeSort fun d e => decide (d.place ≤ e.place)).map Edge.target

/-- A way of finding the edges from a position finds each of them once, in whatever order. -/
def FindsEdges (outgoing : List Edge → Nat → List Edge) : Prop :=
  ∀ edges i, (outgoing edges i).Perm (edges.filter (·.source = i))

theorem source_of_mem_edgesFrom {e : Edge} (h : e ∈ c.edgesFrom i p) : e.source = i := by
  obtain ⟨x, -, hx⟩ := List.mem_filterMap.1 h
  obtain ⟨target, -, rfl⟩ := Option.map_eq_some_iff.1 hx
  rfl

theorem pairwise_edgesFrom (c : Catalog) (i : Nat) (p : Pack) :
    (c.edgesFrom i p).Pairwise fun d e => d.place < e.place := by
  have hplaces : p.dependencies.zipIdx.Pairwise fun x y => x.2 < y.2 := by
    rw [← List.pairwise_map (f := Prod.snd), List.zipIdx_map_snd]
    exact List.pairwise_lt_range' 1
  refine hplaces.filterMap _ fun x y hxy d hd e he => ?_
  obtain ⟨_, -, rfl⟩ := Option.map_eq_some_iff.1 hd
  obtain ⟨_, -, rfl⟩ := Option.map_eq_some_iff.1 he
  exact hxy

theorem map_target_edgesFrom (c : Catalog) (i : Nat) (p : Pack) :
    (c.edgesFrom i p).map Edge.target = c.indexesOf p.dependencies := by
  have hmap : (c.edgesFrom i p).map Edge.target =
      (p.dependencies.zipIdx.map Prod.fst).filterMap c.indexOf? := by
    rw [edgesFrom, List.map_filterMap, List.filterMap_map]
    simp only [Option.map_map, Function.comp_def, Option.map_id']
  rw [hmap, List.zipIdx_map_fst, indexesOf]

/-- Of all edges those from a position are the ones of the pack there. -/
theorem filter_edges (hp : c.packs[i]? = some p) :
    c.edges.filter (·.source = i) = c.edgesFrom i p := by
  obtain ⟨hi, hget⟩ := List.getElem?_eq_some_iff.1 hp
  have hsplit : c.packs = c.packs.take i ++ p :: c.packs.drop (i + 1) := by
    rw [← hget, List.getElem_cons_drop, List.take_append_drop]
  have helsewhere : ∀ xs : List (Pack × Nat), (∀ x ∈ xs, x.2 ≠ i) →
      (xs.flatMap fun x => (c.edgesFrom x.2 x.1).filter (·.source = i)) = [] := by
    intro xs hxs
    refine List.flatMap_eq_nil_iff.2 fun x hx => List.filter_eq_nil_iff.2 fun e he => ?_
    rw [source_of_mem_edgesFrom he, decide_eq_true_eq]
    exact hxs x hx
  have hhere : (c.edgesFrom i p).filter (·.source = i) = c.edgesFrom i p :=
    List.filter_eq_self.2 fun e he => decide_eq_true (source_of_mem_edgesFrom he)
  have hlength : (c.packs.take i).length = i := List.length_take_of_le hi.le
  rw [edges, List.filter_flatMap, hsplit, List.zipIdx_append, List.zipIdx_cons, hlength,
    Nat.zero_add, List.flatMap_append, List.flatMap_cons, hhere, helsewhere, helsewhere,
    List.nil_append, List.append_nil]
  · exact fun x hx => Nat.ne_of_gt (List.le_snd_of_mem_zipIdx hx)
  · intro x hx
    have hlt := List.snd_lt_add_of_mem_zipIdx hx
    omega

/-- Edges in any order are sorted into the one in which their places increase. -/
theorem targetsInOrder_of_perm {listed sorted : List Edge} (h : listed.Perm sorted)
    (hs : sorted.Pairwise fun d e => d.place < e.place) :
    targetsInOrder listed = sorted.map Edge.target := by
  have hle : (listed.mergeSort fun d e => decide (d.place ≤ e.place)).Pairwise
      fun d e => decide (d.place ≤ e.place) = true :=
    List.pairwise_mergeSort (fun _ _ _ => by simp only [decide_eq_true_eq]; omega)
      (fun _ _ => by simp only [Bool.or_eq_true, decide_eq_true_eq]; omega) listed
  have hperm := (List.mergeSort_perm listed fun d e => decide (d.place ≤ e.place)).trans h
  have hsorted : (listed.mergeSort fun d e => decide (d.place ≤ e.place)) = sorted := by
    refine hperm.eq_of_pairwise (fun d e hd he hde hed => ?_) hle
      (hs.imp fun hlt => decide_eq_true hlt.le)
    have hplace : d.place = e.place :=
      Nat.le_antisymm (of_decide_eq_true hde) (of_decide_eq_true hed)
    have hplaces : (sorted.map Edge.place).Nodup := List.pairwise_map.2 (hs.imp Nat.ne_of_lt)
    exact List.inj_on_of_nodup_map hplaces (hperm.mem_iff.1 hd) he hplace
  rw [targetsInOrder, hsorted]

theorem targetsInOrder_eq {outgoing : List Edge → Nat → List Edge} (hout : FindsEdges outgoing)
    (hp : c.packs[i]? = some p) : targetsInOrder (outgoing c.edges i) = c.dependenciesOf i := by
  have hperm := hout c.edges i
  rw [filter_edges hp] at hperm
  rw [targetsInOrder_of_perm hperm (c.pairwise_edgesFrom i p), map_target_edgesFrom,
    dependenciesOf_of_getElem? hp]

/-- Names that are all in the catalog have a position each. -/
theorem forall₂_indexesOf {names : List String} (h : ∀ name ∈ names, name ∈ Pack.names c.packs) :
    List.Forall₂ (fun name j => ∃ q, c.packs[j]? = some q ∧ q.name = name) names
      (c.indexesOf names) := by
  induction names with
  | nil => exact .nil
  | cons name names ih =>
    obtain ⟨hname, hnames⟩ := List.forall_mem_cons.1 h
    obtain ⟨j, hj⟩ := indexOf?_of_mem hname
    rw [indexesOf, List.filterMap_cons_some hj]
    exact .cons (indexOf?_eq_some_iff.1 hj) (ih hnames)

/-! ## Building a catalog -/

/-- Packs make a catalog just where they are consistent. In it keys are distinct, each pack is found
by its key and at its position by its name, and what the graph finds for a position are the
positions of the dependencies of the pack there, one by one as declared. -/
theorem ofPacks_exact {outgoing : List Edge → Nat → List Edge} (hout : FindsEdges outgoing)
    (packs : List Pack) :
    ((∃ c, ofPacks packs = .ok c) ↔ Consistent packs) ∧
      ∀ c, ofPacks packs = .ok c → c.packs = packs ∧
        (packs.Pairwise fun p q => p.key ≠ q.key) ∧
        (∀ p ∈ packs, c.getByKey? p.key = some p) ∧
        ∀ i p, packs[i]? = some p → c.indexOf? p.name = some i ∧
          List.Forall₂ (fun name j => ∃ q, packs[j]? = some q ∧ q.name = name) p.dependencies
            (targetsInOrder (outgoing c.edges i)) ∧
          targetsInOrder (outgoing c.edges i) = c.dependenciesOf i := by
  refine ⟨ofPacks_ok_iff, fun c hc => ?_⟩
  obtain rfl := packs_of_ofPacks hc
  refine ⟨rfl, List.pairwise_map.1 c.keys_nodup, fun p hp => ?_, fun i p hp => ?_⟩
  · exact getByKey?_eq_some_iff.2 ⟨hp, rfl⟩
  · have htargets := targetsInOrder_eq hout hp
    have hknown : ∀ name ∈ p.dependencies, name ∈ Pack.names c.packs := fun name hname =>
      c.references_known p (List.mem_of_getElem? hp) name (List.mem_append_left _ hname)
    refine ⟨indexOf?_eq_some_iff.2 ⟨p, hp, rfl⟩, ?_, htargets⟩
    rw [htargets, dependenciesOf_of_getElem? hp]
    exact forall₂_indexesOf hknown

/-! ## Dependencies declared twice -/

/-- A pack with an id that lists a later pack first and an earlier one twice. -/
def pen : Pack := { name := "pen", id := some "nib", dependencies := ["cap", "ink", "ink"] }

/-- The packs around `pen`: one under its own name as id, and one below another. -/
def pens : List Pack :=
  [{ name := "ink", id := some "ink" }, pen, { name := "cap", parent := some "pen" }]

/-- The edges from a position, the last one added first. -/
def newestFirst (edges : List Edge) (i : Nat) : List Edge :=
  (edges.filter (·.source = i)).reverse

theorem findsEdges_newestFirst : FindsEdges newestFirst := fun _ _ => List.reverse_perm _

theorem pens_ofPacks_exact : FindsEdges newestFirst ∧ Consistent pens ∧
    ∃ c, ofPacks pens = .ok c ∧ c.getByKey? "nib" = some pen ∧
      (newestFirst c.edges 1).map Edge.target = [0, 0, 2] ∧
      targetsInOrder (newestFirst c.edges 1) = [2, 0, 0] := by
  have hbuilt : (ofPacks pens).toOption.isSome = true := by cbv
  have hc := eq_ok_get hbuilt
  obtain ⟨hiff, hrest⟩ := ofPacks_exact findsEdges_newestFirst pens
  obtain ⟨-, -, hkeys, hpositions⟩ := hrest _ hc
  refine ⟨findsEdges_newestFirst, hiff.1 ⟨_, hc⟩, _, hc, hkeys pen (by decide), rfl, ?_⟩
  rw [(hpositions 1 pen rfl).2.2]
  rfl

end PackChoice.Catalog
