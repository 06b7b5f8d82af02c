import PackChoice.Proofs.InstallGroups
import PackChoice.Proofs.Session.Run

/-!
The candidates of a session are computed in two ways, when an install group is chosen and when a
variable is set, and kept in between. As long as setting variables succeeds they are always what
the variables and the install group call for (`candidates_fresh`). After a failure they are still
what earlier variables called for (`ReachableBy.supplied`); so they are packs of the catalog in
order (`Supplied.sublist`), and the required packs of the install group are among them
(`Supplied.mem_of_required`).
-/

namespace PackChoice

namespace Session

variable {c : Context} {s t : Session} {vars : Variables} {name : String}

/-- The candidates are those that the install group calls for under some variables. -/
def Supplied (s : Session) (vars : Variables) : Prop :=
  ({ s with vars } : Session).currentCandidates = .ok s.candidates

/-! ## Computing the candidates -/

theorem currentCandidates_of_none (hg : s.installGroup = none) :
    s.currentCandidates = s.context.availablePacks s.vars := by
  rw [currentCandidates, hg]
  cases s.context.availablePacks s.vars <;> rfl

theorem currentCandidates_of_some (hg : s.installGroup = some name) {available : List Pack}
    (ha : s.context.availablePacks s.vars = .ok available) {groups : InstallGroups}
    (hp : InstallGroups.partition s.context.catalog available s.vars = .ok groups) :
    s.currentCandidates = .ok (available.filter (groups.admits name)) := by
  unfold currentCandidates InstallGroups.admits
  rw [ha, hg]
  simp only [bind, Except.bind, hp]
  cases groups.get? name <;> rfl

/-- What the candidates were chosen from, and how. -/
theorem Supplied.cases (h : s.Supplied vars) :
    ∃ available, s.context.availablePacks vars = .ok available ∧
      ((s.installGroup = none ∧ s.candidates = available) ∨
        ∃ name groups, s.installGroup = some name ∧
          InstallGroups.partition s.context.catalog available vars = .ok groups ∧
            s.candidates = available.filter (groups.admits name)) := by
  obtain ⟨available, ha, hrest⟩ := bind_eq_ok_iff.1 h
  refine ⟨available, ha, ?_⟩
  cases hg : s.installGroup with
  | none =>
    simp only [hg] at hrest
    exact .inl ⟨rfl, (pure_eq_ok_iff.1 hrest).symm⟩
  | some name =>
    simp only [hg] at hrest
    obtain ⟨groups, hp, -⟩ := bind_eq_ok_iff.1 hrest
    have hc := (currentCandidates_of_some (s := { s with vars }) hg ha hp).symm.trans h
    exact .inr ⟨name, groups, rfl, hp, (Except.ok.inj hc).symm⟩

theorem installGroups_eq_ok_iff {groups : InstallGroups} :
    s.installGroups = .ok groups ↔
      ∃ available, s.context.availablePacks s.vars = .ok available ∧
        InstallGroups.partition s.context.catalog available s.vars = .ok groups :=
  bind_eq_ok_iff

/-! ## What the operations supply -/

theorem openSession_eq_ok (h : c.openSession vars = .ok s) :
    s.context = c ∧ s.Supplied s.vars := by
  obtain ⟨available, ha, h⟩ := bind_eq_ok_iff.1 h
  rw [← pure_eq_ok_iff.1 h]
  exact ⟨rfl, (currentCandidates_of_none rfl).trans ha⟩

theorem withInstallGroup_eq_ok (h : s.withInstallGroup name = .ok t) :
    t.context = s.context ∧ t.Supplied t.vars := by
  obtain ⟨available, groups, group, ha, hp, hg, rfl⟩ := withInstallGroup_eq_ok_iff.1 h
  refine ⟨rfl, (currentCandidates_of_some rfl ha hp).trans ?_⟩
  unfold InstallGroups.admits
  rw [hg]
  rfl

/-- An install group can be chosen when some pack on offer is in it and the packs of every group can
be told. -/
theorem withInstallGroup_of_members {available packs : List Pack}
    (ha : s.context.availablePacks (s.vars.insert InstallGroup.chosenVariable name) =
      .ok available)
    (hm : ∀ tag ∈ InstallGroups.tags available,
      ∃ packs, InstallGroups.members s.context.catalog available tag = .ok packs)
    (ht : name ∈ InstallGroups.tags available)
    (hp : InstallGroups.members s.context.catalog available name = .ok packs) :
    s.withInstallGroup name = .ok (s.narrowed name available (.ofList (Pack.names packs))) := by
  obtain ⟨groups, hgroups⟩ := InstallGroups.partition_ok _ hm
  have hget := (InstallGroups.get?_partition_eq_some_iff hgroups).2 ⟨ht, packs, hp, rfl⟩
  exact withInstallGroup_eq_ok_iff.2 ⟨available, groups, _, ha, hgroups, hget, rfl⟩

theorem withInstallGroup_of_only {available packs : List Pack}
    (ha : s.context.availablePacks (s.vars.insert InstallGroup.chosenVariable name) =
      .ok available)
    (ht : InstallGroups.tags available = .ofList [name])
    (hp : InstallGroups.members s.context.catalog available name = .ok packs) :
    s.withInstallGroup name = .ok (s.narrowed name available (.ofList (Pack.names packs))) := by
  have htag : ∀ tag, tag ∈ InstallGroups.tags available ↔ tag = name := by
    intro tag
    rw [ht, NameSet.mem_ofList, List.mem_singleton]
  refine withInstallGroup_of_members ha (fun tag hin => ⟨packs, ?_⟩) ((htag name).2 rfl) hp
  rw [(htag tag).1 hin]
  exact hp

theorem withInstallGroup_of_not_mem_tags {available : List Pack}
    (ha : s.context.availablePacks (s.vars.insert InstallGroup.chosenVariable name) =
      .ok available)
    (ht : name ∉ InstallGroups.tags available) : ∃ e, s.withInstallGroup name = .error e := by
  cases hw : s.withInstallGroup name with
  | error e => exact ⟨e, rfl⟩
  | ok t =>
    obtain ⟨available', groups, group, ha', hp, hg, -⟩ := withInstallGroup_eq_ok_iff.1 hw
    rw [ha] at ha'
    obtain rfl := Except.ok.inj ha'
    exact absurd ((InstallGroups.get?_partition_eq_some_iff hp).1 hg).1 ht

theorem refreshed_eq_ok (h : s.refreshed = .ok t) :
    t.context = s.context ∧ t.Supplied t.vars := by
  obtain ⟨candidates, hc, h⟩ := bind_eq_ok_iff.1 h
  rw [← pure_eq_ok_iff.1 h]
  exact ⟨rfl, hc⟩

end Session

/-! ## Every session -/

namespace Context

variable {permitted : Session → Change → Prop} {c : Context} {s : Session}

theorem ReachableBy.context_eq (h : c.ReachableBy permitted s) : s.context = c :=
  h.keeps (fun _ _ ho => (Session.openSession_eq_ok ho).1) (fun _ _ hs => hs) (fun _ _ _ hs => hs)
    (fun _ _ _ hs hg => (Session.withInstallGroup_eq_ok hg).1.trans hs)
    (fun _ _ _ _ hs hr => (Session.refreshed_eq_ok hr).1.trans hs) (fun _ _ _ _ hs _ _ => hs)

/-- A failure to set a variable leaves candidates behind that the variables before it called for. -/
theorem ReachableBy.supplied (h : c.ReachableBy permitted s) : ∃ vars, s.Supplied vars :=
  h.keeps (P := fun s => ∃ vars, s.Supplied vars)
    (fun _ _ ho => ⟨_, (Session.openSession_eq_ok ho).2⟩) (fun _ _ hs => hs) (fun _ _ _ hs => hs)
    (fun _ _ _ _ hg => ⟨_, (Session.withInstallGroup_eq_ok hg).2⟩)
    (fun _ _ _ _ _ hr => ⟨_, (Session.refreshed_eq_ok hr).2⟩) (fun _ _ _ _ hs _ _ => hs)

theorem ReachableBy.supplied_vars (h : c.ReachableBy Change.SetsWell s) : s.Supplied s.vars := by
  refine h.keeps (P := fun s => s.Supplied s.vars) (fun _ _ ho => (Session.openSession_eq_ok ho).2)
    (fun _ _ hs => hs) (fun _ _ _ hs => hs)
    (fun _ _ _ _ hg => (Session.withInstallGroup_eq_ok hg).2)
    (fun _ _ _ _ _ hr => (Session.refreshed_eq_ok hr).2) fun s name value e _ hp he => ?_
  rw [Change.SetsWell, he] at hp
  cases hp

end Context

/-! ## Fresh candidates -/

namespace Session

variable {s : Session}

/-- The candidates are what a computation from the variables and the install group gives now: the
packs on offer, of these the ones that the group holds while the groups on offer include it, and
the ones in no group or in this one while they do not. -/
def Fresh (s : Session) : Prop :=
  ∃ available, s.context.availablePacks s.vars = .ok available ∧
    match s.installGroup with
    | none => s.candidates = available
    | some name => ∃ groups, s.installGroups = .ok groups ∧
        match groups.get? name with
        | some group => s.candidates = available.filter fun p => group.packNames.contains p.name
        | none => s.candidates = available.filter fun p =>
            p.installGroups.isEmpty || p.installGroups.contains name

theorem fresh_of_supplied (h : s.Supplied s.vars) : s.Fresh := by
  obtain ⟨available, ha, ⟨hg, hc⟩ | ⟨name, groups, hg, hp, hc⟩⟩ := h.cases
  · unfold Fresh
    rw [hg]
    exact ⟨available, ha, hc⟩
  · unfold Fresh
    rw [hg]
    refine ⟨available, ha, groups, installGroups_eq_ok_iff.2 ⟨available, ha, hp⟩, ?_⟩
    unfold InstallGroups.admits at hc
    cases hget : groups.get? name with
    | none =>
      rw [hget] at hc
      exact hc
    | some group =>
      rw [hget] at hc
      exact hc

theorem refreshed_candidates (h : s.Supplied s.vars) :
    ∃ t, s.refreshed = .ok t ∧ t.candidates = s.candidates := by
  have hc : s.currentCandidates = .ok s.candidates := h
  unfold refreshed
  rw [hc]
  exact ⟨_, rfl, rfl⟩

theorem Supplied.of_proceed {vars : Variables} {d : ClosedSession} (h : s.Supplied vars)
    (hd : s.proceed = .ok d) : d.session.Supplied vars := by
  rw [(proceed_eq_ok_iff.1 hd).2]
  exact h

end Session

/-- Where setting variables has always succeeded, the candidates of a session, open or closed, are
fresh, and finding them anew changes nothing. -/
theorem Context.ReachableBy.candidates_fresh {c : Context} {s : Session}
    (h : c.ReachableBy Change.SetsWell s) :
    s.context = c ∧ s.Fresh ∧ (∃ t, s.refreshed = .ok t ∧ t.candidates = s.candidates) ∧
      ∀ d, s.proceed = .ok d →
        d.session.vars = s.vars ∧ d.session.installGroup = s.installGroup ∧ d.session.Fresh := by
  have hs := h.supplied_vars
  refine ⟨h.context_eq, Session.fresh_of_supplied hs, Session.refreshed_candidates hs, ?_⟩
  intro d hd
  have hsession := (Session.proceed_eq_ok_iff.1 hd).2
  have hvars : d.session.vars = s.vars := by rw [hsession]
  have hgroup : d.session.installGroup = s.installGroup := by rw [hsession]
  refine ⟨hvars, hgroup, Session.fresh_of_supplied ?_⟩
  rw [hvars]
  exact hs.of_proceed hd

/-- A variable puts one more pack on offer, and then a group is chosen. -/
theorem Context.sample_candidates_fresh : ∃ s t,
    Context.sample.ReachableBy Change.SetsWell s ∧
      Pack.names s.candidates = ["core", "app", "lib", "man"] ∧ s.Fresh ∧
        t = (s.selectInstallGroup "user").session ∧ t.Fresh := by
  have hsets : Change.SetsWell Session.sample (.setVariable "LANG" "en") := by
    show (Session.sample.setVariable "LANG" "en").result = .ok ()
    cbv
  have hs := Session.sample_reachable.changed hsets
  have ht := hs.changed (show Change.SetsWell _ (.selectInstallGroup "user") from trivial)
  refine ⟨_, _, hs, ?_, hs.candidates_fresh.2.1, rfl, ht.candidates_fresh.2.1⟩
  show Pack.names (Session.sample.setVariable "LANG" "en").session.candidates = _
  cbv

namespace Session

variable {s : Session} {vars : Variables} {p : Pack}

/-! ## Packs among the candidates -/

theorem Supplied.sublist (h : s.Supplied vars) : s.candidates.Sublist s.context.catalog.packs := by
  obtain ⟨available, ha, hcases⟩ := h.cases
  have hsub := (Context.availablePacks_eq_ok ha).1
  rcases hcases with ⟨-, hc⟩ | ⟨name, groups, -, -, hc⟩
  · rw [hc]
    exact hsub
  · rw [hc]
    exact List.filter_sublist.trans hsub

/-- Neither conditions nor install groups take away a required pack that belongs to the chosen
group. -/
theorem Supplied.mem_of_required (h : s.Supplied vars) (hp : p ∈ s.context.catalog.packs)
    (hr : p.required = true)
    (hin : ∀ name, s.installGroup = some name → p.isInInstallGroup name = true) :
    p ∈ s.candidates := by
  obtain ⟨available, ha, hcases⟩ := h.cases
  obtain ⟨hsub, hmem⟩ := Context.availablePacks_eq_ok ha
  have hpa : p ∈ available := (hmem p).2 ⟨hp, Context.offers_of_required vars hr⟩
  rcases hcases with ⟨-, hc⟩ | ⟨name, groups, hg, hpart, hc⟩
  · rw [hc]
    exact hpa
  · rw [hc]
    have hadmits := InstallGroups.admits_of_isInInstallGroup (fun q hq => hsub.subset hq) hpart hpa
      (hin name hg)
    exact List.mem_filter.2 ⟨hpa, hadmits⟩

end Session

theorem Context.ReachableBy.known {permitted : Session → Change → Prop} {c : Context}
    {s : Session} (h : c.ReachableBy permitted s) :
    ∀ p ∈ s.candidates, p ∈ s.context.catalog.packs := by
  obtain ⟨vars, hs⟩ := h.supplied
  exact fun p hp => hs.sublist.subset hp

/-! ## A group of a small installer -/

section Palette

variable {s : Session}

theorem Session.palette_tags :
    InstallGroups.tags Session.palette.candidates = .ofList ["artist"] := by cbv

theorem Session.palette_availablePacks (hs : Context.palette.Reachable s) (hv : s.vars = ∅)
    (name : String) :
    s.context.availablePacks (s.vars.insert InstallGroup.chosenVariable name) =
      .ok Session.palette.candidates := by
  rw [hs.context_eq, hv]
  cbv

/-- A session of the installer of `Definition.palette` with the group `artist` chosen outside the
studio. The group holds all packs: `paint` is in it, `blue` in no group, and `red` comes with
`paint`. -/
def Session.withArtist (s : Session) : Session :=
  s.narrowed "artist" Session.palette.candidates (.ofList ["red", "paint", "blue"])

theorem Session.palette_withInstallGroup (hs : Context.palette.Reachable s) (hv : s.vars = ∅) :
    s.withInstallGroup "artist" = .ok s.withArtist := by
  obtain ⟨packs, hm, hnames⟩ : ∃ packs, InstallGroups.members s.context.catalog
      Session.palette.candidates "artist" = .ok packs ∧
        Pack.names packs = ["red", "paint", "blue"] := by
    rw [hs.context_eq]
    exact ok_of_toOption_map (by cbv)
  rw [Session.withArtist, ← hnames]
  exact Session.withInstallGroup_of_only (Session.palette_availablePacks hs hv "artist")
    Session.palette_tags hm

end Palette

end PackChoice
