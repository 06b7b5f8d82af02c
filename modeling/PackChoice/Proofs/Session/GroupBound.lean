import PackChoice.Proofs.InstallGroups.Partition
import PackChoice.Proofs.Session.Frozen

/-!
What a chosen install group bounds. While the group is on offer every candidate is one of its packs,
and since these include all that they need, so is every pack that closing freezes, even one from
outside the candidates. No pack is frozen twice, so the frozen packs are no larger than the group
(`bounded_by_group`); that their total size is not greater takes that 64 bits hold it.
-/

namespace PackChoice

namespace Session

variable {s : Session} {packs : List Pack}

/-- What holds of the candidates and of all that they need holds of what is frozen. -/
theorem Frozen.forall_of_needs {P : Pack → Prop} (h : s.Frozen packs)
    (hc : ∀ p ∈ s.candidates, P p) (hd : ∀ p q, P p → s.context.catalog.Needs p q → P q) :
    ∀ p ∈ packs, P p := by
  intro p hp
  rcases h.nothing_else p hp with hcand | ⟨q, hq, -, hqp⟩
  · exact hc p hcand
  · exact hd q p (hc q hq) hqp.to_reflTransGen

theorem Supplied.mem_packNames {name : String} {groups : InstallGroups} {group : InstallGroup}
    {available : List Pack} (h : s.Supplied s.vars) (hchosen : s.installGroup = some name)
    (ha : s.context.availablePacks s.vars = .ok available)
    (hpart : InstallGroups.partition s.context.catalog available s.vars = .ok groups)
    (hgroup : groups.get? name = some group) :
    ∀ p ∈ s.candidates, p.name ∈ group.packNames := by
  intro p hp
  have hcand := (currentCandidates_of_some hchosen ha hpart).symm.trans h
  rw [← Except.ok.inj hcand] at hp
  have hadmits := (List.mem_filter.1 hp).2
  rw [InstallGroups.admits, hgroup] at hadmits
  exact NameSet.contains_eq_true.1 hadmits

end Session

/-- Where setting variables has always succeeded and the chosen group is still on offer, the
candidates and whatever is frozen are packs of the group, and the frozen packs are no larger than
the group. -/
theorem Context.ReachableBy.bounded_by_group {c : Context} {s : Session} {name : String}
    {groups : InstallGroups} {group : InstallGroup} (h : c.ReachableBy Change.SetsWell s)
    (hchosen : s.installGroup = some name) (hgroups : s.installGroups = .ok groups)
    (hgroup : groups.get? name = some group) :
    (∀ p ∈ s.candidates, p.name ∈ group.packNames) ∧
      ∀ d, s.proceed = .ok d →
        (∀ p ∈ d.packs, p.name ∈ group.packNames) ∧
          Pack.bytes d.packs ≤ Pack.bytes (group.named s.context.catalog) ∧
            (Pack.bytes (group.named s.context.catalog) < 2 ^ 64 → d.size ≤ group.size) := by
  have hs := h.supplied_vars
  obtain ⟨available, ha, hpart⟩ := Session.installGroups_eq_ok_iff.1 hgroups
  have hcand := hs.mem_packNames hchosen ha hpart hgroup
  refine ⟨hcand, fun d hd => ?_⟩
  have hknown : ∀ p ∈ available, p ∈ s.context.catalog.packs :=
    fun p hp => (Context.availablePacks_eq_ok ha).1.subset hp
  obtain ⟨members, hio, hname, -⟩ := InstallGroups.members_of_get? hknown hpart hgroup
  have hfrozen := hs.frozen (Session.proceed_eq_ok_iff.1 hd).1
  have hmem : ∀ p ∈ d.packs, p ∈ members :=
    hfrozen.forall_of_needs (fun p hp => (hname p (hs.sublist.subset hp)).1 (hcand p hp))
      fun p q hp hpq => hio.mem_of_needs hp hpq
  have hnamed : ∀ p ∈ d.packs, p.name ∈ group.packNames :=
    fun p hp => (hname p (hfrozen.known p hp)).2 (hmem p hp)
  have hbytes : Pack.bytes d.packs ≤ Pack.bytes (group.named s.context.catalog) :=
    Pack.bytes_le_of_subset (List.Nodup.of_map _ hfrozen.names_nodup) fun p hp =>
      InstallGroup.mem_named.2 ⟨hfrozen.known p hp, hnamed p hp⟩
  refine ⟨hnamed, hbytes, fun hfits => ?_⟩
  rw [InstallGroups.size_eq_totalSize hknown hpart hgroup]
  exact Pack.totalSize_le hbytes hfits

/-! ## An installer with sizes -/

/-- An installer of three packs with their sizes. `tools` needs `zlib`, which is on offer on one
platform only. -/
def Definition.toolbox : Definition where
  packs := [
    { name := "tools", dependencies := ["zlib"], installGroups := .ofList ["developer"],
      size := 2048 },
    { name := "zlib", size := 1024, condition := some (.term "linux" false) },
    { name := "core", size := 100 }]
  conditions := .ofList [("linux", .variable "PLATFORM" "linux")]

theorem Definition.toolbox_loads :
    (Context.ofDefinition Definition.toolbox {}).toOption.isSome = true := by cbv

/-- What is known about the installer of `Definition.toolbox`. -/
def Context.toolbox : Context :=
  (Context.ofDefinition Definition.toolbox {}).toOption.get Definition.toolbox_loads

theorem Context.toolbox_opens : (Context.toolbox.openSession ∅).toOption.isSome = true := by cbv

/-- A session of the installer of `Definition.toolbox` in which nothing has been done. -/
def Session.toolbox : Session := (Context.toolbox.openSession ∅).toOption.get Context.toolbox_opens

/-- The session in which the only install group has been chosen. -/
def Session.developer : Session :=
  Session.toolbox.narrowed "developer" Session.toolbox.candidates
    (.ofList ["zlib", "tools", "core"])

theorem Session.toolbox_tags :
    InstallGroups.tags Session.toolbox.candidates = .ofList ["developer"] := by cbv

theorem Session.toolbox_members : ∃ members, InstallGroups.members Context.toolbox.catalog
    Session.toolbox.candidates "developer" = .ok members ∧
      Pack.names members = ["zlib", "tools", "core"] ∧ Pack.totalSize members = 3172 := by
  have hok : (InstallGroups.members Context.toolbox.catalog Session.toolbox.candidates
      "developer").toOption.isSome = true := by cbv
  exact ⟨_, eq_ok_get hok, by cbv, by cbv⟩

theorem Session.toolbox_withInstallGroup :
    Session.toolbox.withInstallGroup "developer" = .ok Session.developer := by
  obtain ⟨members, hm, hnames, -⟩ := Session.toolbox_members
  have ha : Session.toolbox.context.availablePacks
      (Session.toolbox.vars.insert InstallGroup.chosenVariable "developer") =
        .ok Session.toolbox.candidates := by cbv
  have hcontext : Session.toolbox.context = Context.toolbox := by cbv
  rw [Session.developer, ← hnames]
  rw [← hcontext] at hm
  exact Session.withInstallGroup_of_only ha Session.toolbox_tags hm

theorem Session.developer_groups {s : Session} (hc : s.context = Context.toolbox)
    (hv : s.vars = Session.developer.vars) :
    ∃ groups group, s.installGroups = .ok groups ∧ groups.get? "developer" = some group ∧
      group.size = 3172 ∧ Pack.bytes (group.named s.context.catalog) = 3172 := by
  obtain ⟨members, hm, hnames, hsize⟩ := Session.toolbox_members
  have ha : Context.toolbox.availablePacks Session.developer.vars =
      .ok Session.toolbox.candidates := by cbv
  have hpacks : s.context.catalog.packs = Definition.toolbox.packs := by
    rw [hc]
    exact (Context.ofDefinition_eq_ok (eq_ok_get Definition.toolbox_loads)).2
  rw [← hc] at hm ha
  rw [← hv] at ha
  obtain ⟨groups, hpart, hget⟩ := InstallGroups.partition_of_only s.vars Session.toolbox_tags hm
  have hpackNames : (InstallGroup.ofPacks "developer" members s.vars).packNames =
      .ofList ["zlib", "tools", "core"] := by rw [InstallGroup.ofPacks, hnames]
  refine ⟨groups, _, Session.installGroups_eq_ok_iff.2 ⟨_, ha, hpart⟩, hget, hsize, ?_⟩
  rw [InstallGroup.named, hpackNames, hpacks]
  decide

/-- `zlib` is no candidate and comes with `tools`, while `core` is taken out. -/
theorem Context.toolbox_bounded_by_group : ∃ s d groups group,
    Context.toolbox.ReachableBy Change.SetsWell s ∧ s.installGroup = some "developer" ∧
      s.installGroups = .ok groups ∧ groups.get? "developer" = some group ∧ group.size = 3172 ∧
      Pack.names s.candidates = ["tools", "core"] ∧
      (∀ p ∈ s.candidates, p.name ∈ group.packNames) ∧
      s.proceed = .ok d ∧ d.packNames = ["zlib", "tools"] ∧ d.size = 3072 ∧
      (∀ p ∈ d.packs, p.name ∈ group.packNames) ∧
      Pack.bytes d.packs ≤ Pack.bytes (group.named s.context.catalog) ∧
      Pack.bytes (group.named s.context.catalog) < 2 ^ 64 ∧ d.size ≤ group.size := by
  let coreOff := Change.toggle "core" false
  obtain ⟨s, d, hs, hchosen, hvars, hcand, hd, hnames, hsize⟩ : ∃ s d,
      Context.toolbox.ReachableBy Change.SetsWell s ∧ s.installGroup = some "developer" ∧
        s.vars = Session.developer.vars ∧ Pack.names s.candidates = ["tools", "core"] ∧
        s.proceed = .ok d ∧ d.packNames = ["zlib", "tools"] ∧ d.size = 3072 := by
    have hopen : Context.toolbox.ReachableBy Change.SetsWell Session.toolbox :=
      .opened (eq_ok_get Context.toolbox_opens)
    have hgroup := hopen.withInstallGroup trivial Session.toolbox_withInstallGroup
    have hs : Context.toolbox.ReachableBy Change.SetsWell (coreOff.apply Session.developer) :=
      hgroup.changed trivial
    have hok : (coreOff.apply Session.developer).proceed.toOption.isSome = true := by cbv
    exact ⟨_, _, hs, by cbv, by cbv, by cbv, eq_ok_get hok, by cbv, by cbv⟩
  obtain ⟨groups, group, hgroups, hget, hgsize, hbytes⟩ :=
    Session.developer_groups hs.context_eq hvars
  have hfits : Pack.bytes (group.named s.context.catalog) < 2 ^ 64 := by
    rw [hbytes]
    decide
  obtain ⟨hin, hbound⟩ := hs.bounded_by_group hchosen hgroups hget
  obtain ⟨hdin, hle, hsizes⟩ := hbound d hd
  exact ⟨s, d, groups, group, hs, hchosen, hgroups, hget, hgsize, hcand, hin, hd, hnames, hsize,
    hdin, hle, hfits, hsizes hfits⟩

end PackChoice
