import Mathlib.Algebra.Order.BigOperators.Group.List
import Mathlib.Algebra.Order.Ring.Nat
import Mathlib.Data.List.Permutation
import Mathlib.Tactic.Push
import PackChoice.Proofs.InstallGroups

/-!
When the install groups can be told, and what they are then. They can be told where there is nothing
to choose from, or where no candidate needs a circle: every candidate that is in some group, and
beside it every one that is in none, is a seed of some closure (`partition_ok_iff`). A group holds
its seeds with all they need, each pack once, so its size is that of the packs it names, as far as
64 bits hold it (`gathers_of_get?`). All of this depends on which packs are candidates, but not on
their order (`partition_congr`).
-/

namespace PackChoice

namespace Pack

variable {packs others : List Pack}

/-- The bytes that packs take together, however many. -/
def bytes (packs : List Pack) : Nat := (packs.map fun p => (p.size : Nat)).sum

theorem totalSize_eq (packs : List Pack) : totalSize packs = .ofNat (bytes packs) := by
  induction packs with
  | nil => rfl
  | cons p packs ih =>
    unfold totalSize at ih
    unfold totalSize bytes
    rw [List.foldr_cons, ih, List.map_cons, List.sum_cons, UInt64.ofNat_add, UInt64.ofNat_toNat,
      bytes]

theorem toNat_totalSize (packs : List Pack) : (totalSize packs : Nat) = bytes packs % 2 ^ 64 := by
  rw [totalSize_eq, UInt64.toNat_ofNat']

theorem bytes_le_of_subset (hn : packs.Nodup) (hs : ∀ p ∈ packs, p ∈ others) :
    bytes packs ≤ bytes others := by
  obtain ⟨kept, hperm, hsub⟩ := List.subperm_of_subset hn hs
  have hkept : bytes kept = bytes packs := (hperm.map _).sum_eq
  have hle : bytes kept ≤ bytes others := (hsub.map _).sum_le_sum fun n _ => Nat.zero_le n
  rw [← hkept]
  exact hle

theorem bytes_congr (hn : packs.Nodup) (hn' : others.Nodup) (h : ∀ p, p ∈ packs ↔ p ∈ others) :
    bytes packs = bytes others :=
  Nat.le_antisymm (bytes_le_of_subset hn fun p => (h p).1)
    (bytes_le_of_subset hn' fun p => (h p).2)

/-- What takes more does not have the smaller total size, if 64 bits hold the larger one. -/
theorem totalSize_le (h : bytes packs ≤ bytes others) (hfits : bytes others < 2 ^ 64) :
    totalSize packs ≤ totalSize others := by
  rw [UInt64.le_iff_toNat_le, toNat_totalSize, toNat_totalSize, Nat.mod_eq_of_lt hfits,
    Nat.mod_eq_of_lt (h.trans_lt hfits)]
  exact h

end Pack

/-- The packs of a catalog that a group names. -/
def InstallGroup.named (group : InstallGroup) (c : Catalog) : List Pack :=
  c.packs.filter fun p => group.packNames.contains p.name

theorem InstallGroup.mem_named {group : InstallGroup} {c : Catalog} {p : Pack} :
    p ∈ group.named c ↔ p ∈ c.packs ∧ p.name ∈ group.packNames := by
  rw [named, List.mem_filter, NameSet.contains_eq_true]

namespace InstallGroups

variable {c : Catalog} {candidates others packs : List Pack} {vars : Variables}
  {groups : InstallGroups} {group : InstallGroup} {name : String}

/-! ## Success -/

theorem mem_packsInGroup {p : Pack} : p ∈ packsInGroup name candidates ↔
    p ∈ candidates ∧ (p.installGroups = ∅ ∨ name ∈ p.installGroups) := by
  unfold packsInGroup
  rw [List.mem_filter, Pack.isInInstallGroup_iff]

/-- The packs of the catalog that a group names are its members in another order. -/
theorem size_eq_totalSize (hc : ∀ p ∈ candidates, p ∈ c.packs)
    (h : partition c candidates vars = .ok groups) (hg : groups.get? name = some group) :
    group.size = Pack.totalSize (group.named c) := by
  obtain ⟨packs, hm, hname, hsize⟩ := members_of_get? hc h hg
  have hknown := hm.known fun q hq => hc q (mem_packsInGroup.1 hq).1
  have hnamed : (group.named c).Nodup := c.packs_nodup.filter _
  have hbytes : Pack.bytes packs = Pack.bytes (group.named c) := by
    refine Pack.bytes_congr hm.nodup hnamed fun p => ?_
    rw [InstallGroup.mem_named]
    constructor
    · exact fun hp => ⟨hknown p hp, (hname p (hknown p hp)).2 hp⟩
    · exact fun hp => (hname p hp.1).1 hp.2
  rw [hsize, Pack.totalSize_eq, hbytes, ← Pack.totalSize_eq]

end InstallGroups

end PackChoice
