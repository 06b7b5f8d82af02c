import PackChoice.Proofs.Session.Reselection

/-!
What choosing an install group selects, and what it does not depend on. The packs are chosen in one
pass over the eligible candidates, in which the pack of an exclude group that was chosen first gives
way to a later one if only the later one is initial (`Taken.take`). After any number of packs the
choice is the preferred pack of those seen (`passed_chosen`), so the pass selects what is said in
`initialSelection`, and of each exclude group the pack that leads it (`GroupChoice`). The candidates
come from the context and the variables alone, and the selection from the candidates and the
options; so what a session was before has no effect (`withInstallGroup_alike`).
-/

namespace PackChoice

namespace Session

variable {s t u : Session} {p q : Pack} {packs : List Pack} {name group : String}

/-! ## The pack that leads an exclude group -/

/-- A pack leads a list of packs: it is the first initial one or, where there is none, the first. -/
inductive Leads (packs : List Pack) (p : Pack) : Prop where
  | initial {before after : List Pack} :
      packs = before ++ p :: after → p.isInitial = true → (∀ q ∈ before, q.isInitial ≠ true) →
        Leads packs p
  | first {after : List Pack} :
      packs = p :: after → (∀ q ∈ packs, q.isInitial ≠ true) → Leads packs p

theorem preferred?_eq_some_iff_leads : preferred? packs = some p ↔ Leads packs p := by
  unfold preferred?
  cases hf : packs.find? (·.isInitial) with
  | none =>
    have hnone : ∀ q ∈ packs, q.isInitial ≠ true := List.find?_eq_none.1 hf
    rw [List.head?_eq_some_iff]
    constructor
    · rintro ⟨after, hsplit⟩
      exact .first hsplit hnone
    · rintro (⟨rfl, hi, -⟩ | ⟨hsplit, -⟩)
      · exact absurd hi (hnone p (List.mem_append_right _ List.mem_cons_self))
      · exact ⟨_, hsplit⟩
  | some r =>
    obtain ⟨hr, before, after, hsplit, hbefore⟩ := List.find?_eq_some_iff_append.1 hf
    constructor
    · rintro ⟨⟩
      exact .initial hsplit hr fun q hq => by simpa using hbefore q hq
    · rintro (⟨hsplit', hi, hbefore'⟩ | ⟨-, hnone⟩)
      · have hp : packs.find? (·.isInitial) = some p := List.find?_eq_some_iff_append.2
          ⟨hi, _, _, hsplit', fun q hq => by simpa using hbefore' q hq⟩
        exact hf.symm.trans hp
      · exact absurd hr (hnone r (List.mem_of_find?_eq_some hf))

theorem exists_preferred? (h : packs ≠ []) : ∃ p, preferred? packs = some p := by
  unfold preferred?
  cases packs.find? (·.isInitial) with
  | some p => exact ⟨p, rfl⟩
  | none => exact ⟨packs.head h, List.head?_eq_some_head h⟩

/-! ## Choosing in one pass -/

/-- The pack to keep of two in one exclude group: the one chosen first, unless only the other one is
initial. -/
def kept (chosen p : Pack) : Pack := if !chosen.isInitial && p.isInitial then p else chosen

/-- What has been taken of the packs seen so far: the names of those in no exclude group, and one
pack of each exclude group. -/
structure Taken where
  free : NameSet
  chosen : NameMap Pack

namespace Taken

/-- One more pack is seen. -/
def take (taken : Taken) (p : Pack) : Taken :=
  match p.excludeGroup with
  | none => { taken with free := taken.free.insert p.name }
  | some group =>
    { taken with
      chosen := taken.chosen.insert group (kept ((taken.chosen.get? group).getD p) p) }

/-- The names of all that was taken. -/
def names (taken : Taken) : NameSet := taken.free.insertAll (Pack.names taken.chosen.values)

theorem mem_names {taken : Taken} :
    name ∈ taken.names ↔ name ∈ taken.free ∨
      ∃ group p, taken.chosen.get? group = some p ∧ p.name = name := by
  unfold names
  rw [NameSet.mem_insertAll, Pack.mem_names, or_comm]
  refine or_congr_right ⟨?_, ?_⟩
  · rintro ⟨p, hp, hname⟩
    obtain ⟨entry, hentry, rfl⟩ := List.mem_map.1 hp
    exact ⟨entry.1, entry.2, NameMap.get?_eq_some_iff.2 hentry, hname⟩
  · rintro ⟨group, p, hp, hname⟩
    exact ⟨p, List.mem_map.2 ⟨_, NameMap.get?_eq_some_iff.1 hp, rfl⟩, hname⟩

theorem mem_free_take {taken : Taken} :
    name ∈ (taken.take p).free ↔ name ∈ taken.free ∨ p.excludeGroup = none ∧ p.name = name := by
  unfold take
  cases p.excludeGroup with
  | none => simp [or_comm, eq_comm]
  | some group => simp

theorem get?_chosen_take {taken : Taken} :
    (taken.take p).chosen.get? group =
      if p.excludeGroup = some group then some (kept ((taken.chosen.get? group).getD p) p)
      else taken.chosen.get? group := by
  unfold take
  cases p.excludeGroup with
  | none => simp
  | some other =>
    by_cases he : other = group
    · rw [he, NameMap.get?_insert, if_pos rfl, if_pos rfl]
    · rw [NameMap.get?_insert, if_neg (Ne.symm he), if_neg fun hs => he (Option.some.inj hs)]

end Taken

/-- What is taken of a list of packs. -/
def passed (packs : List Pack) : Taken := packs.foldl Taken.take ⟨∅, ∅⟩

theorem passed_append_singleton : passed (packs ++ [p]) = (passed packs).take p := by
  unfold passed
  rw [List.foldl_append, List.foldl_cons, List.foldl_nil]

theorem preferred?_append_singleton :
    preferred? (packs ++ [p]) = some (kept ((preferred? packs).getD p) p) := by
  unfold preferred? kept
  rw [List.find?_append]
  cases hf : packs.find? (·.isInitial) with
  | some q =>
    have hq : q.isInitial = true := List.find?_some hf
    simp [hq]
  | none =>
    have hnone := List.find?_eq_none.1 hf
    cases hi : p.isInitial with
    | true =>
      cases packs with
      | nil => simp [hi]
      | cons q packs =>
        have hq : q.isInitial = false := by simpa using hnone q List.mem_cons_self
        simp [hi, hq]
    | false => cases packs <;> simp [hi]

theorem passed_chosen (packs : List Pack) (group : String) :
    (passed packs).chosen.get? group = preferred? (packs.filter (·.excludeGroup = some group)) := by
  induction packs using List.reverseRecOn with
  | nil => rfl
  | append_singleton packs p ih =>
    rw [passed_append_singleton, Taken.get?_chosen_take, ih, List.filter_append]
    by_cases hg : p.excludeGroup = some group
    · have hp : [p].filter (·.excludeGroup = some group) = [p] := by simp [hg]
      rw [if_pos hg, hp, preferred?_append_singleton]
    · have hp : [p].filter (·.excludeGroup = some group) = [] := by simp [hg]
      rw [if_neg hg, hp, List.append_nil]

theorem mem_passed_free : name ∈ (passed packs).free ↔
    ∃ p ∈ packs, p.excludeGroup = none ∧ p.name = name := by
  induction packs using List.reverseRecOn with
  | nil => simp [passed]
  | append_singleton packs p ih =>
    rw [passed_append_singleton, Taken.mem_free_take, ih]
    simp only [List.mem_append, List.mem_singleton, or_and_right, exists_or, exists_eq_left]

/-- The pass selects all packs in no exclude group and of each exclude group the preferred one. -/
theorem names_passed (packs : List Pack) : (passed packs).names = initialSelection packs := by
  refine NameSet.ext fun name => ?_
  rw [Taken.mem_names, mem_passed_free, mem_initialSelection]
  simp only [passed_chosen]
  constructor
  · rintro (⟨p, hp, hfree, hname⟩ | ⟨group, p, hpick, hname⟩)
    · exact ⟨p, hp, hname, .inl hfree⟩
    · obtain ⟨hp, hgroup⟩ := List.mem_filter.1 (mem_of_preferred? hpick)
      exact ⟨p, hp, hname, .inr ⟨group, of_decide_eq_true hgroup, hpick⟩⟩
  · rintro ⟨p, hp, hname, hfree | ⟨group, -, hpick⟩⟩
    · exact .inl ⟨p, hp, hfree, hname⟩
    · exact .inr ⟨group, p, hpick, hname⟩

/-! ## The selection -/

/-- The candidates that choosing an install group may select. -/
def eligible (s : Session) : List Pack :=
  s.candidates.filter fun p => s.options.selectAllInGroup || p.isInitial

/-- What is selected when an install group has been chosen. -/
structure GroupChoice (s : Session) : Prop where
  candidates_only : ∀ name ∈ s.selected, name ∈ Pack.names s.candidates
  eligible_only : ∀ p ∈ s.candidates, p.name ∈ s.selected → p ∈ s.eligible
  free : ∀ p ∈ s.eligible, p.excludeGroup = none → p.name ∈ s.selected
  /-- Of an exclude group one pack is selected. -/
  one : ∀ group, (∃ p ∈ s.eligible, p.excludeGroup = some group) →
    ∃! p, p ∈ s.eligible ∧ p.excludeGroup = some group ∧ p.name ∈ s.selected
  /-- That pack is the first initial one or, where there is none, the first. -/
  leading : ∀ group, ∀ p ∈ s.eligible, p.excludeGroup = some group →
    (p.name ∈ s.selected ↔ Leads (s.eligible.filter (·.excludeGroup = some group)) p)

theorem withInstallGroup_selected (h : s.withInstallGroup name = .ok t) :
    t.selected = initialSelection t.eligible := by
  obtain ⟨available, groups, group, -, -, -, rfl⟩ := withInstallGroup_eq_ok_iff.1 h
  rfl

theorem groupChoice_of_initialSelection
    (hc : ∀ p ∈ s.candidates, p ∈ s.context.catalog.packs)
    (hsel : s.selected = initialSelection s.eligible) : s.GroupChoice := by
  have hknown : ∀ p ∈ s.eligible, p ∈ s.context.catalog.packs :=
    fun p hp => hc p (List.mem_of_mem_filter hp)
  have hmem : ∀ p ∈ s.context.catalog.packs, p.name ∈ s.selected ↔ p ∈ s.eligible ∧
      (p.excludeGroup = none ∨ ∃ group, p.excludeGroup = some group ∧
        preferred? (s.eligible.filter (·.excludeGroup = some group)) = some p) := by
    intro p hp
    rw [hsel, mem_initialSelection]
    constructor
    · rintro ⟨q, hq, hname, hpick⟩
      obtain rfl := Catalog.name_inj (hknown q hq) hp hname
      exact ⟨hq, hpick⟩
    · rintro ⟨hpe, hpick⟩
      exact ⟨p, hpe, rfl, hpick⟩
  have hlead : ∀ group, ∀ p ∈ s.eligible, p.excludeGroup = some group →
      (p.name ∈ s.selected ↔
        preferred? (s.eligible.filter (·.excludeGroup = some group)) = some p) := by
    intro group p hp hg
    rw [hmem p (hknown p hp), hg]
    simp [hp]
  constructor
  case candidates_only =>
    intro name hname
    rw [hsel, mem_initialSelection] at hname
    obtain ⟨p, hp, rfl, -⟩ := hname
    exact Pack.name_mem_names (List.mem_of_mem_filter hp)
  case eligible_only => exact fun p hp hname => ((hmem p (hc p hp)).1 hname).1
  case free => exact fun p hp hfree => (hmem p (hknown p hp)).2 ⟨hp, .inl hfree⟩
  case one =>
    rintro group ⟨r, hr, hrg⟩
    have hne : s.eligible.filter (·.excludeGroup = some group) ≠ [] :=
      List.ne_nil_of_mem (List.mem_filter.2 ⟨hr, decide_eq_true hrg⟩)
    obtain ⟨p, hpick⟩ := exists_preferred? hne
    obtain ⟨hp, hpg⟩ := List.mem_filter.1 (mem_of_preferred? hpick)
    have hpg := of_decide_eq_true hpg
    refine ⟨p, ⟨hp, hpg, (hlead group p hp hpg).2 hpick⟩, ?_⟩
    rintro q ⟨hq, hqg, hqsel⟩
    have hqpick := (hlead group q hq hqg).1 hqsel
    rw [hpick] at hqpick
    exact (Option.some.inj hqpick).symm
  case leading =>
    intro group p hp hg
    rw [hlead group p hp hg, preferred?_eq_some_iff_leads]

/-! ## No trace of the past -/

/-- Two sessions of one context with the same options, whose variables differ at most in the one that
names the group, are the same once the group has been chosen, apart from their validators. -/
theorem withInstallGroup_alike (hc : t.context = s.context) (ho : t.options = s.options)
    (hv : ∀ v, v ≠ InstallGroup.chosenVariable → t.vars.get? v = s.vars.get? v)
    (h : s.withInstallGroup name = .ok u) :
    t.withInstallGroup name = .ok { u with validators := t.validators } := by
  have hvars : t.vars.insert InstallGroup.chosenVariable name =
      s.vars.insert InstallGroup.chosenVariable name := NameMap.insert_congr hv
  obtain ⟨available, packNames, rfl, ht⟩ := withInstallGroup_congr hc hvars h
  rw [ht]
  unfold narrowed
  rw [hvars, ho, hc]

/-- Choosing another group before makes no difference. -/
theorem withInstallGroup_again {other : String} (hu : s.withInstallGroup other = .ok u)
    (h : s.withInstallGroup name = .ok t) : u.withInstallGroup name = .ok t := by
  have ht : t.validators = s.validators := by
    obtain ⟨-, -, -, -, -, -, rfl⟩ := withInstallGroup_eq_ok_iff.1 h
    rfl
  obtain ⟨available, groups, group, -, -, -, rfl⟩ := withInstallGroup_eq_ok_iff.1 hu
  have hvars : ∀ v, v ≠ InstallGroup.chosenVariable →
      (s.narrowed other available group.packNames).vars.get? v = s.vars.get? v :=
    fun v hne => (NameMap.get?_insert _ _ _ _).trans (if_neg hne)
  have halike := withInstallGroup_alike (s := s) (t := s.narrowed other available group.packNames)
    rfl rfl hvars h
  have hself : { t with validators := s.validators } = t := by rw [← ht]
  exact halike.trans (congrArg Except.ok hself)

/-- Choosing an install group selects candidates of the group: of the eligible ones all that are in
no exclude group, and of each exclude group the one that leads it, as one pass over them finds it.
Nothing but the context, the options and the other variables counts, so it does not matter which
group was chosen before. -/
theorem selectInstallGroup_exact (h : s.selectInstallGroup name = ⟨.ok (), t⟩) :
    t.options = s.options ∧ t.installGroup = some name ∧
      t.candidates.Sublist s.context.catalog.packs ∧ t.GroupChoice ∧
      t.selected = (passed t.eligible).names ∧
      (∀ r : Session, r.context = s.context → r.options = s.options →
        (∀ v, v ≠ InstallGroup.chosenVariable → r.vars.get? v = s.vars.get? v) →
          r.selectInstallGroup name = ⟨.ok (), { t with validators := r.validators }⟩) ∧
      ∀ other u, s.selectInstallGroup other = ⟨.ok (), u⟩ →
        u.selectInstallGroup name = ⟨.ok (), t⟩ := by
  have hok := selectInstallGroup_eq_ok_iff.1 h
  obtain ⟨hcontext, hsupplied⟩ := withInstallGroup_eq_ok hok
  have hsub := hsupplied.sublist
  have hsel := withInstallGroup_selected hok
  have hoptions : t.options = s.options ∧ t.installGroup = some name := by
    obtain ⟨-, -, -, -, -, -, rfl⟩ := withInstallGroup_eq_ok_iff.1 hok
    exact ⟨rfl, rfl⟩
  refine ⟨hoptions.1, hoptions.2, hcontext ▸ hsub,
    groupChoice_of_initialSelection (fun p hp => hsub.subset hp) hsel,
    by rw [hsel, names_passed], fun r hc ho hv => ?_, fun other u hu => ?_⟩
  · exact selectInstallGroup_eq_ok_iff.2 (withInstallGroup_alike hc ho hv hok)
  · exact selectInstallGroup_eq_ok_iff.2
      (withInstallGroup_again (selectInstallGroup_eq_ok_iff.1 hu) hok)

end Session

/-! ## An installer with two groups -/

/-- An installer of seven packs in two install groups. `app` needs `lib`, `man` is on offer to
readers of English, and of the two themes only the second starts out selected. -/
def Definition.office : Definition where
  packs := [
    { name := "os", required := true },
    { name := "app", dependencies := ["lib"], installGroups := .ofList ["user"] },
    { name := "lib", preselected := false },
    { name := "dbg", preselected := false, installGroups := .ofList ["dev"] },
    { name := "man", condition := some (.term "english" false) },
    { name := "dim", preselected := false, excludeGroup := some "theme" },
    { name := "lit", excludeGroup := some "theme" }]
  conditions := .ofList [("english", .variable "LANG" "en")]

theorem Definition.office_loads :
    (Context.ofDefinition Definition.office {}).toOption.isSome = true := by cbv

/-- What is known about the installer of `Definition.office`. -/
def Context.office : Context :=
  (Context.ofDefinition Definition.office {}).toOption.get Definition.office_loads

theorem Context.ofDefinition_office :
    Context.ofDefinition Definition.office {} = .ok Context.office :=
  eq_ok_get Definition.office_loads

theorem Context.office_opens : (Context.office.openSession ∅).toOption.isSome = true := by cbv

/-- A session of the installer of `Definition.office` in which nothing has been done. -/
def Session.office : Session := (Context.office.openSession ∅).toOption.get Context.office_opens

theorem Session.office_reachable : Context.office.Reachable Session.office :=
  .opened (eq_ok_get Context.office_opens)

/-- The session in which the group of users has been chosen. -/
def Session.officeUser : Session :=
  Session.office.narrowed "user" Session.office.candidates
    (.ofList ["os", "lib", "app", "dim", "lit"])

theorem Session.office_members (name : String) (h : name = "user" ∨ name = "dev") :
    (InstallGroups.members Session.office.context.catalog Session.office.candidates
      name).toOption.isSome = true := by
  rcases h with rfl | rfl <;> cbv

theorem Session.office_withInstallGroup :
    Session.office.withInstallGroup "user" = .ok Session.officeUser := by
  have ha : Session.office.context.availablePacks
      (Session.office.vars.insert InstallGroup.chosenVariable "user") =
        .ok Session.office.candidates := by cbv
  have htags : InstallGroups.tags Session.office.candidates = .ofList ["user", "dev"] := by
    cbv
  have hmem : ∀ tag, tag ∈ InstallGroups.tags Session.office.candidates ↔
      tag = "user" ∨ tag = "dev" := by
    intro tag
    rw [htags, NameSet.mem_ofList, List.mem_pair]
  obtain ⟨packs, hp, hnames⟩ : ∃ packs, InstallGroups.members Session.office.context.catalog
      Session.office.candidates "user" = .ok packs ∧
        Pack.names packs = ["os", "lib", "app", "dim", "lit"] := ok_of_toOption_map (by cbv)
  rw [Session.officeUser, ← hnames]
  exact Session.withInstallGroup_of_members ha
    (fun tag htag => ⟨_, eq_ok_get (Session.office_members tag ((hmem tag).1 htag))⟩)
    ((hmem "user").2 (.inl rfl)) hp

/-- `lit` is selected although `dim` stands before it. In another session the variable that
names the group had a value and `os` alone was selected. -/
theorem Session.office_selectInstallGroup : ∃ s r t u,
    Context.office.Reachable s ∧ Context.office.Reachable r ∧
      r.vars.get? InstallGroup.chosenVariable = some "nobody" ∧ r.selected.toList = ["os"] ∧
      s.selectInstallGroup "user" = ⟨.ok (), t⟩ ∧ t.GroupChoice ∧
      t.selected = (Session.passed t.eligible).names ∧
      t.selected.toList = ["app", "lib", "lit", "os"] ∧
      r.selectInstallGroup "user" = ⟨.ok (), u⟩ ∧ u.candidates = t.candidates ∧
      u.selected = t.selected := by
  let alone := Change.select []
  let rename := Change.setVariable InstallGroup.chosenVariable "nobody"
  obtain ⟨r, hr, hvars, hsel, hoptions⟩ : ∃ r, Context.office.Reachable r ∧
      r.vars = (∅ : Variables).insert InstallGroup.chosenVariable "nobody" ∧
      r.selected.toList = ["os"] ∧ r.options = Session.office.options := by
    have hr : Context.office.Reachable (rename.apply (alone.apply Session.office)) :=
      (Session.office_reachable.changed trivial).changed trivial
    exact ⟨_, hr, by cbv, by cbv, by cbv⟩
  have hs := Session.office_reachable
  have hok := Session.selectInstallGroup_eq_ok_iff.2 Session.office_withInstallGroup
  obtain ⟨-, -, -, hchoice, hpass, halike, -⟩ := Session.selectInstallGroup_exact hok
  have hempty : Session.office.vars = ∅ := by cbv
  have hr' := halike r (hr.context_eq.trans hs.context_eq.symm) hoptions fun v hne => by
    rw [hvars, hempty, NameMap.get?_insert, if_neg hne]
  exact ⟨_, r, _, _, hs, hr, by rw [hvars, NameMap.get?_insert, if_pos rfl], hsel, hok, hchoice,
    hpass, by cbv, hr', rfl, rfl⟩

end PackChoice
