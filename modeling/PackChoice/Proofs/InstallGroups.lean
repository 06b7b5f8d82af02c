import PackChoice.InstallGroup
import PackChoice.Proofs.Catalog.Closure
import PackChoice.Proofs.Sequencing

/-!
What the install groups on offer hold. There is a group for each tag, and it has its members from
the candidates alone (`get?_partition_eq_some_iff`): those that belong to the group with everything
they need (`members_of_get?`). Only a circle of dependencies can keep the groups from being told
(`partition_eq_error`).
-/

namespace PackChoice

theorem Pack.isInInstallGroup_iff {p : Pack} {group : String} :
    p.isInInstallGroup group = true ↔ p.installGroups = ∅ ∨ group ∈ p.installGroups := by
  have hempty : p.installGroups.isEmpty = true ↔ p.installGroups = ∅ := by
    refine ⟨fun h => NameSet.ext fun name => ?_, fun h => by rw [h]; rfl⟩
    rw [NameSet.mem_empty, ← NameSet.mem_toList, List.isEmpty_iff.1 h]
    exact ⟨List.not_mem_nil, False.elim⟩
  rw [Pack.isInInstallGroup, Bool.or_eq_true, NameSet.contains_eq_true, hempty]

namespace InstallGroups

variable {c : Catalog} {candidates packs : List Pack} {vars : Variables} {groups : InstallGroups}
  {group : InstallGroup} {name : String}

theorem partition_ok (vars : Variables)
    (h : ∀ tag ∈ tags candidates, ∃ packs, members c candidates tag = .ok packs) :
    ∃ groups, partition c candidates vars = .ok groups := by
  obtain ⟨entries, hentries⟩ := mapM_ok (f := fun name => do
    return (name, InstallGroup.ofPacks name (← members c candidates name) vars))
    fun tag (htag : tag ∈ (tags candidates).toList) => by
      obtain ⟨packs, hpacks⟩ := h tag htag
      exact ⟨_, bind_eq_ok_iff.2 ⟨packs, hpacks, rfl⟩⟩
  exact ⟨.ofList entries, bind_eq_ok_iff.2 ⟨entries, hentries, rfl⟩⟩

theorem get?_partition_eq_some_iff (h : partition c candidates vars = .ok groups) :
    groups.get? name = some group ↔ name ∈ tags candidates ∧
      ∃ packs, members c candidates name = .ok packs ∧ group = .ofPacks name packs vars := by
  obtain ⟨entries, hentries, h⟩ := bind_eq_ok_iff.1 h
  rw [← pure_eq_ok_iff.1 h, NameMap.get?_eq_some_iff]
  -- The entry that a tag is given is fixed by the tag.
  have hentry : ∀ entry, entry ∈ entries ↔ ∃ tag ∈ tags candidates,
      ∃ packs, members c candidates tag = .ok packs ∧ entry = (tag, .ofPacks tag packs vars) := by
    intro entry
    rw [mem_of_mapM_eq_ok hentries]
    refine exists_congr fun tag => and_congr Iff.rfl ?_
    rw [bind_eq_ok_iff]
    exact exists_congr fun packs => and_congr_right fun _ => pure_eq_ok_iff.trans eq_comm
  constructor
  · intro hget
    obtain ⟨tag, htag, packs, hpacks, he⟩ := (hentry _).1 (Sorted.mem_of_mem_ofList hget)
    obtain ⟨rfl, rfl⟩ := Prod.mk.inj he
    exact ⟨htag, packs, hpacks, rfl⟩
  · rintro ⟨htag, packs, hpacks, rfl⟩
    refine Sorted.mem_ofList_of_unique ((hentry _).2 ⟨name, htag, packs, hpacks, rfl⟩) ?_
    rintro e he rfl
    obtain ⟨tag, -, packs', hpacks', rfl⟩ := (hentry e).1 he
    rw [hpacks] at hpacks'
    rw [Except.ok.inj hpacks']

theorem partition_of_only (vars : Variables) (ht : tags candidates = .ofList [name])
    (hp : members c candidates name = .ok packs) :
    ∃ groups, partition c candidates vars = .ok groups ∧
      groups.get? name = some (.ofPacks name packs vars) := by
  have htag : ∀ tag, tag ∈ tags candidates ↔ tag = name := by
    intro tag
    rw [ht, NameSet.mem_ofList, List.mem_singleton]
  obtain ⟨groups, hgroups⟩ := partition_ok vars fun tag hin => ⟨packs, (htag tag).1 hin ▸ hp⟩
  exact ⟨groups, hgroups,
    (get?_partition_eq_some_iff hgroups).2 ⟨(htag name).2 rfl, packs, hp, rfl⟩⟩

theorem members_installOrder (hc : ∀ p ∈ candidates, p ∈ c.packs)
    (h : members c candidates name = .ok packs) :
    c.InstallOrder (packsInGroup name candidates) packs := by
  obtain ⟨order, ho, h⟩ := bind_eq_ok_iff.1 h
  rw [← pure_eq_ok_iff.1 h]
  have hseeds : ∀ q ∈ packsInGroup name candidates, q ∈ c.packs :=
    fun q hq => hc q (List.mem_of_mem_filter hq)
  exact (Catalog.closure_eq_ok Catalog.lt_of_mem_indexesOf ho).congr fun p =>
    Catalog.mem_packsAt_indexesOf_names hseeds

theorem members_of_get? (hc : ∀ p ∈ candidates, p ∈ c.packs)
    (h : partition c candidates vars = .ok groups) (hg : groups.get? name = some group) :
    ∃ packs, c.InstallOrder (packsInGroup name candidates) packs ∧
      (∀ p ∈ c.packs, p.name ∈ group.packNames ↔ p ∈ packs) ∧
        group.size = Pack.totalSize packs := by
  obtain ⟨-, packs, hpacks, rfl⟩ := (get?_partition_eq_some_iff h).1 hg
  have hio := members_installOrder hc hpacks
  have hknown := hio.known fun q hq => hc q (List.mem_of_mem_filter hq)
  refine ⟨packs, hio, fun p hp => ?_, rfl⟩
  exact NameSet.mem_ofList.trans (Catalog.name_mem_names_iff hknown hp)

theorem mem_packNames (hc : ∀ p ∈ candidates, p ∈ c.packs)
    (h : partition c candidates vars = .ok groups) (hg : groups.get? name = some group)
    {p : Pack} (hp : p ∈ candidates) (hin : p.isInInstallGroup name = true) :
    p.name ∈ group.packNames := by
  obtain ⟨packs, hio, hname, -⟩ := members_of_get? hc h hg
  exact (hname p (hc p hp)).2 (hio.mem_of_seed (List.mem_filter.2 ⟨hp, hin⟩))

/-- Whether a pack on offer is a candidate while a group is chosen. -/
def admits (groups : InstallGroups) (name : String) (p : Pack) : Bool :=
  match groups.get? name with
  | some group => group.packNames.contains p.name
  | none => p.isInInstallGroup name

theorem admits_of_isInInstallGroup (hc : ∀ p ∈ candidates, p ∈ c.packs)
    (h : partition c candidates vars = .ok groups) {p : Pack} (hp : p ∈ candidates)
    (hin : p.isInInstallGroup name = true) : groups.admits name p = true := by
  unfold admits
  cases hg : groups.get? name with
  | none => exact hin
  | some group => exact NameSet.contains_eq_true.2 (mem_packNames hc h hg hp hin)

theorem members_eq_error {e : Error} (h : members c candidates name = .error e) :
    ∃ path, e = .cyclicDependency path := by
  rcases bind_eq_error_iff.1 h with h | ⟨order, -, h⟩
  · exact Catalog.closure_eq_error h
  · cases h

theorem partition_eq_error {e : Error} (h : partition c candidates vars = .error e) :
    ∃ path, e = .cyclicDependency path := by
  rcases bind_eq_error_iff.1 h with h | ⟨entries, -, h⟩
  · obtain ⟨tag, -, htag⟩ := exists_of_mapM_eq_error h
    rcases bind_eq_error_iff.1 htag with htag | ⟨packs, -, htag⟩
    · exact members_eq_error htag
    · cases htag
  · cases h

end InstallGroups

end PackChoice
