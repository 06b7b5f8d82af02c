import PackChoice.Pack

/-!
Catalogs, the packs an installer offers. In a catalog no two packs have the same name or the same
id, no id is the name of another pack, and every dependency and every parent is in the catalog.
`Catalog.ofPacks` checks a list of packs for this and reports the first fault.
-/

namespace PackChoice

/-- The packs an installer offers, in the order of its definition. -/
structure Catalog where
  packs : List Pack
  names_nodup : (Pack.names packs).Nodup
  ids_nodup : (packs.filterMap Pack.id).Nodup
  /-- An id may be the pack's own name but no other pack's. -/
  id_not_name : ∀ p ∈ packs, ∀ id, p.id = some id → id ∈ Pack.names packs → id = p.name
  references_known : ∀ p ∈ packs, ∀ name ∈ p.dependencies ++ p.parent.toList,
    name ∈ Pack.names packs

namespace Catalog

/-- The first name that is in `seen` or stands in the list for a second time. -/
def repeated? (seen : List String) : List String → Option String
  | [] => none
  | name :: names => if name ∈ seen then some name else repeated? (name :: seen) names

/-- The first id that is in `seen`, stands in the list for a second time, or is one of `names`
other than the pack's own. -/
def clashingId? (names seen : List String) : List Pack → Option String
  | [] => none
  | p :: packs =>
    match p.id with
    | none => clashingId? names seen packs
    | some id =>
      if id ∈ seen ∨ (id ∈ names ∧ id ≠ p.name) then some id
      else clashingId? names (id :: seen) packs

/-- The first dependency or parent of a pack that is none of `names`. -/
def unknownReference? (names : List String) (p : Pack) : Option String :=
  (p.dependencies ++ p.parent.toList).find? (· ∉ names)

theorem repeated?_eq_none_iff {seen names : List String} :
    repeated? seen names = none ↔ names.Nodup ∧ ∀ name ∈ names, name ∉ seen := by
  induction names generalizing seen with
  | nil => simp [repeated?]
  | cons a names ih =>
    rw [repeated?]
    split
    · next h => simp [h]
    · next h =>
      rw [ih]
      simp only [List.nodup_cons, List.mem_cons, not_or, forall_eq_or_imp]
      constructor
      · rintro ⟨hn, hs⟩
        exact ⟨⟨fun ha => (hs a ha).1 rfl, hn⟩, h, fun b hb => (hs b hb).2⟩
      · rintro ⟨⟨ha, hn⟩, -, hs⟩
        exact ⟨hn, fun b hb => ⟨fun he => ha (he ▸ hb), hs b hb⟩⟩

theorem clashingId?_eq_none_iff {names seen : List String} {packs : List Pack} :
    clashingId? names seen packs = none ↔
      ((packs.filterMap Pack.id).Nodup ∧ ∀ id ∈ packs.filterMap Pack.id, id ∉ seen) ∧
        ∀ p ∈ packs, ∀ id, p.id = some id → id ∈ names → id = p.name := by
  induction packs generalizing seen with
  | nil => simp [clashingId?]
  | cons p packs ih =>
    rw [clashingId?]
    split
    · next h => simp [ih, h]
    · next id h =>
      split
      · next hc =>
        simp only [reduceCtorEq, false_iff]
        rintro ⟨⟨-, hs⟩, hn⟩
        rcases hc with hc | ⟨hm, hne⟩
        · exact hs id (by simp [h]) hc
        · exact hne (hn p List.mem_cons_self id h hm)
      · next hc =>
        obtain ⟨hseen, hname⟩ := not_or.1 hc
        simp only [ih, List.filterMap_cons, h, List.nodup_cons, List.mem_cons, not_or,
          forall_eq_or_imp]
        constructor
        · rintro ⟨⟨hn, hs⟩, ho⟩
          refine ⟨⟨⟨fun hi => (hs id hi).1 rfl, hn⟩, hseen, fun i hi => (hs i hi).2⟩, ?_, ho⟩
          rintro i hi hm
          rw [Option.some.inj hi] at hname
          exact Decidable.byContradiction fun hne => hname ⟨hm, hne⟩
        · rintro ⟨⟨⟨hi, hn⟩, -, hs⟩, -, ho⟩
          exact ⟨⟨hn, fun i hm => ⟨fun he => hi (he ▸ hm), hs i hm⟩⟩, ho⟩

theorem unknownReference?_eq_none_iff {names : List String} {p : Pack} :
    unknownReference? names p = none ↔
      ∀ name ∈ p.dependencies ++ p.parent.toList, name ∈ names := by
  simp only [unknownReference?, List.find?_eq_none, decide_not, Bool.not_eq_true',
    decide_eq_false_iff_not, Decidable.not_not]

/-- The catalog of the listed packs: names are checked first, then ids, then references. -/
def ofPacks (packs : List Pack) : Except Error Catalog :=
  let names := Pack.names packs
  match hn : repeated? [] names with
  | some name => .error (.duplicatePack name)
  | none =>
    match hi : clashingId? names [] packs with
    | some id => .error (.duplicatePack id)
    | none =>
      match hr : packs.find? fun p => (unknownReference? names p).isSome with
      | some p => .error (.unknownPack ((unknownReference? names p).getD "") (some p.name))
      | none =>
        have hids := clashingId?_eq_none_iff.1 hi
        .ok
          { packs
            names_nodup := (repeated?_eq_none_iff.1 hn).1
            ids_nodup := hids.1.1
            id_not_name := hids.2
            references_known := fun p hp => unknownReference?_eq_none_iff.1 (by
              have := List.find?_eq_none.1 hr p hp
              simpa using this) }

/-- The names of all packs, in order. -/
def names (c : Catalog) : List String := Pack.names c.packs

/-- The position of the pack with a name. -/
def indexOf? (c : Catalog) (name : String) : Option Nat := c.packs.findIdx? (·.name = name)

/-- The pack with a name. -/
def get? (c : Catalog) (name : String) : Option Pack := c.packs.find? (·.name = name)

/-- The pack with a key. -/
def getByKey? (c : Catalog) (key : String) : Option Pack := c.packs.find? (·.key = key)

/-- The names of all install groups that some pack is in. -/
def installGroupNames (c : Catalog) : NameSet :=
  .ofList (c.packs.flatMap fun p => p.installGroups.toList)

/-- The packs shown below a pack. -/
def children (c : Catalog) (parent : String) : List Pack :=
  c.packs.filter fun p => p.parent = some parent

/-- The packs at the listed positions. -/
def packsAt (c : Catalog) (indexes : List Nat) : List Pack := indexes.filterMap (c.packs[·]?)

/-- The positions of the packs with the listed names. -/
def indexesOf (c : Catalog) (names : List String) : List Nat := names.filterMap c.indexOf?

end Catalog

/-- The packs that are shown. -/
def visiblePacks (packs : List Pack) : List Pack := packs.filter (!·.hidden)

/-- The packs of an install group, with those in no group. -/
def packsInGroup (group : String) (packs : List Pack) : List Pack :=
  packs.filter (·.isInInstallGroup group)

end PackChoice
