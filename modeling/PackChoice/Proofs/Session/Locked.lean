import PackChoice.Proofs.Session.Reselection

/-!
Whether required packs stay selected. Every way to make or change a selection puts in the required
candidates, or leaves them in, but for the choice of an install group: that takes of each exclude
group the first initial pack, so a required pack is left out when it is outranked, that is when
another initial pack of its exclude group stands before it (`withInstallGroup_selects_iff`). In every
session a required candidate is therefore selected, unless a group has been chosen and the pack is
outranked in the catalog (`required_selected`).
-/

namespace PackChoice

theorem find?_eq_some_iff_of_nodup {α : Type} {f : α → Bool} {xs : List α} {x : α}
    (h : xs.Nodup) :
    xs.find? f = some x ↔ x ∈ xs ∧ f x = true ∧ ∀ y, [y, x].Sublist xs → f y ≠ true := by
  induction xs with
  | nil => simp
  | cons a xs ih =>
    obtain ⟨ha, hxs⟩ := List.nodup_cons.1 h
    have hpair : ∀ y, [y, x].Sublist (a :: xs) ↔ [y, x].Sublist xs ∨ y = a ∧ x ∈ xs := by
      intro y
      rw [List.sublist_cons_iff]
      simp [and_comm]
    by_cases hf : f a = true
    · rw [List.find?_cons_of_pos hf]
      constructor
      · rintro hx
        obtain rfl := Option.some.inj hx
        refine ⟨List.mem_cons_self, hf, fun y hy => ?_⟩
        rcases (hpair y).1 hy with hy | ⟨-, hm⟩
        · exact absurd (hy.subset (List.mem_cons_of_mem _ List.mem_cons_self)) ha
        · exact absurd hm ha
      · rintro ⟨hx, -, hall⟩
        rcases List.mem_cons.1 hx with rfl | hx
        · rfl
        · exact absurd hf (hall a ((hpair a).2 (.inr ⟨rfl, hx⟩)))
    · rw [List.find?_cons_of_neg hf, ih hxs]
      constructor
      · rintro ⟨hx, hfx, hall⟩
        refine ⟨List.mem_cons_of_mem _ hx, hfx, fun y hy => ?_⟩
        rcases (hpair y).1 hy with hy | ⟨rfl, -⟩
        · exact hall y hy
        · exact hf
      · rintro ⟨hx, hfx, hall⟩
        rcases List.mem_cons.1 hx with rfl | hx
        · exact absurd hfx hf
        · exact ⟨hx, hfx, fun y hy => hall y ((hpair y).2 (.inl hy))⟩

namespace Pack

/-- Another initial pack of its exclude group stands before the pack. -/
def Outranked (packs : List Pack) (p : Pack) : Prop :=
  ∃ q group, [q, p].Sublist packs ∧ q.isInitial = true ∧
    q.excludeGroup = some group ∧ p.excludeGroup = some group

theorem Outranked.mono {packs others : List Pack} {p : Pack} (h : Outranked packs p)
    (hs : packs.Sublist others) : Outranked others p := by
  obtain ⟨q, group, hq, hrest⟩ := h
  exact ⟨q, group, hq.trans hs, hrest⟩

theorem isInitial_of_required {p : Pack} (h : p.required = true) : p.isInitial = true := by
  rw [isInitial, h, Bool.or_true]

end Pack

open Pack (Outranked)

namespace Session

variable {s t : Session} {p q : Pack} {packs : List Pack} {name : String} {names : List String}
  {selected selected' : NameSet}

/-! ## Choosing a group -/

theorem preferred?_of_initial (hp : p ∈ packs) (hi : p.isInitial = true) :
    preferred? packs = packs.find? (·.isInitial) := by
  unfold preferred?
  cases hf : packs.find? (·.isInitial) with
  | some q => rfl
  | none => exact absurd hi (List.find?_eq_none.1 hf p hp)

/-- Whichever other packs are eligible, an initial one is preferred if it is the first such of its
exclude group. -/
theorem preferred?_eq_some_iff (hn : packs.Nodup) (hp : p ∈ packs) (hi : p.isInitial = true)
    {group : String} (hg : p.excludeGroup = some group) (all : Bool) :
    preferred? ((packs.filter fun q => all || q.isInitial).filter (·.excludeGroup = some group)) =
        some p ↔ ¬ Outranked packs p := by
  have heligible : p ∈ (packs.filter fun q => all || q.isInitial).filter
      (·.excludeGroup = some group) := by
    simp [hp, hi, hg]
  rw [preferred?_of_initial heligible hi, List.find?_filter, List.find?_filter,
    find?_eq_some_iff_of_nodup hn]
  simp only [decide_eq_true_eq, Bool.or_eq_true, ne_eq]
  constructor
  · rintro ⟨-, -, hfirst⟩ ⟨q, group', hq, hqi, hqg, hpg⟩
    rw [hg] at hpg
    exact hfirst q hq ⟨.inr hqi, hqg.trans hpg.symm, hqi⟩
  · intro hnot
    refine ⟨hp, ⟨.inr hi, hg, hi⟩, fun q hq hqt => ?_⟩
    obtain ⟨-, hqg, hqi⟩ := hqt
    exact hnot ⟨q, group, hq, hqi, hqg, hg⟩

theorem initialSelection_selects_iff (hn : (Pack.names packs).Nodup) (hp : p ∈ packs)
    (hi : p.isInitial = true) (all : Bool) :
    p.name ∈ initialSelection (packs.filter fun q => all || q.isInitial) ↔
      ¬ Outranked packs p := by
  have hnodup : packs.Nodup := List.Nodup.of_map _ hn
  rw [mem_initialSelection]
  constructor
  · rintro ⟨q, hq, hname, hpick⟩
    obtain rfl := List.inj_on_of_nodup_map hn (List.mem_filter.1 hq).1 hp hname
    rcases hpick with hfree | ⟨group, hg, hpick⟩
    · rintro ⟨-, group, -, -, -, hg⟩
      rw [hfree] at hg
      cases hg
    · exact (preferred?_eq_some_iff hnodup hp hi hg all).1 hpick
  · intro hnot
    have heligible : p ∈ packs.filter fun q => all || q.isInitial :=
      List.mem_filter.2 ⟨hp, by rw [hi, Bool.or_true]⟩
    refine ⟨p, heligible, rfl, ?_⟩
    cases hg : p.excludeGroup with
    | none => exact .inl rfl
    | some group => exact .inr ⟨group, rfl, (preferred?_eq_some_iff hnodup hp hi hg all).2 hnot⟩

/-- Of the required packs, choosing a group selects those that are not outranked. -/
theorem withInstallGroup_selects_iff (h : s.withInstallGroup name = .ok t)
    (hp : p ∈ t.candidates) (hr : p.required = true) :
    p.name ∈ t.selected ↔ ¬ Outranked t.candidates p := by
  have hsub := (withInstallGroup_eq_ok h).2.sublist
  have hn : (Pack.names t.candidates).Nodup :=
    (hsub.map Pack.name).nodup t.context.catalog.names_nodup
  obtain ⟨available, groups, group, -, -, -, rfl⟩ := withInstallGroup_eq_ok_iff.1 h
  exact initialSelection_selects_iff hn hp (Pack.isInitial_of_required hr) _

/-! ## Toggles -/

theorem displace_keeps_required (hc : ∀ q ∈ s.candidates, q ∈ s.context.catalog.packs)
    (hp : p ∈ s.candidates) (hr : p.required = true) (hq : q ∈ s.candidates)
    (h : s.displace selected q = .ok selected') (hsel : p.name ∈ selected) :
    p.name ∈ selected' := by
  rcases displace_eq_ok h with ⟨-, rfl⟩ | ⟨hnotreq, -, rfl⟩
  · exact hsel
  · refine NameSet.mem_erase.2 ⟨hsel, fun hname => hnotreq ?_⟩
    rwa [← Catalog.name_inj (hc p hp) (hc q hq) hname]

theorem withPack_keeps_required (hc : ∀ q ∈ s.candidates, q ∈ s.context.catalog.packs)
    (hp : p ∈ s.candidates) (hr : p.required = true)
    (h : s.withPack selected q = .ok selected') (hsel : p.name ∈ selected) :
    p.name ∈ selected' := by
  obtain ⟨rest, hrest, rfl⟩ := withPack_eq_ok h
  refine NameSet.mem_insert.2 (.inr ?_)
  exact foldlM_keeps (P := fun selected => p.name ∈ selected)
    (fun r hr' _ _ hin hok => displace_keeps_required hc hp hr (mem_siblings.1 hr').1 hok hin)
    hsel hrest

/-- No toggle takes out a required candidate, be it the pack of the toggle or a sibling of one that
comes in. -/
theorem toggle_keeps_required (hc : ∀ q ∈ s.candidates, q ∈ s.context.catalog.packs)
    (hp : p ∈ s.candidates) (hr : p.required = true) (hq : q ∈ s.candidates) {on : Bool}
    (h : (if on then s.selectionWith q else s.selectionWithout q) = .ok selected')
    (hsel : p.name ∈ s.selected) : p.name ∈ selected' := by
  cases on with
  | true =>
    obtain ⟨closed, -, -, -, hok⟩ := selectionWith_eq_ok (hc q hq) h
    exact foldlM_keeps (P := fun selected => p.name ∈ selected)
      (fun _ _ _ _ hin hstep => withPack_keeps_required hc hp hr hstep hin) hsel hok
  | false =>
    refine (mem_selectionWithout h).2 ⟨hsel, fun hname => ?_⟩
    obtain ⟨hnotreq, -⟩ := selectionWithout_eq_ok h
    refine hnotreq ?_
    rwa [← Catalog.name_inj (hc p hp) (hc q hq) hname]

/-! ## Every session -/

/-- A required candidate is selected, unless a group was chosen and the pack is outranked. -/
def Locked (s : Session) : Prop :=
  ∀ p ∈ s.candidates, p.required = true →
    p.name ∈ s.selected ∨ s.installGroup ≠ none ∧ Outranked s.context.catalog.packs p

theorem locked_of_openSession {c : Context} {vars : Variables} (h : c.openSession vars = .ok s) :
    s.Locked := by
  intro p hp hr
  exact .inl ((mem_openSession_selected h).2 ⟨p, hp, Pack.isInitial_of_required hr, rfl⟩)

theorem locked_of_resolve (hc : ∀ p ∈ s.candidates, p ∈ s.context.catalog.packs)
    (h : s.context.catalog.resolve s.candidates names = .ok packs) :
    ({ s with selected := .ofList (Pack.names packs) } : Session).Locked := by
  obtain ⟨hio, -, -⟩ := Catalog.resolve_eq_ok hc h
  intro p hp hr
  have hmem : p ∈ packs := hio.mem_of_seed (Catalog.mem_wanted.2 ⟨hp, .inl hr⟩)
  exact .inl (NameSet.mem_ofList.2 (Pack.name_mem_names hmem))

theorem locked_of_withInstallGroup (h : s.withInstallGroup name = .ok t) : t.Locked := by
  have hsub := (withInstallGroup_eq_ok h).2.sublist
  intro p hp hr
  by_cases hout : Outranked t.candidates p
  · obtain ⟨available, groups, group, -, -, -, rfl⟩ := withInstallGroup_eq_ok_iff.1 h
    exact .inr ⟨Option.some_ne_none name, hout.mono hsub⟩
  · exact .inl ((withInstallGroup_selects_iff h hp hr).2 hout)

theorem Locked.toggled (h : s.Locked) (hc : ∀ q ∈ s.candidates, q ∈ s.context.catalog.packs)
    (hq : q ∈ s.candidates) {on : Bool}
    (hok : (if on then s.selectionWith q else s.selectionWithout q) = .ok selected) :
    ({ s with selected } : Session).Locked := by
  intro p hp hr
  exact (h p hp hr).imp_left (toggle_keeps_required hc hp hr hq hok)

/-- A required pack that becomes a candidate is selected, and one that was a candidate stays as it
was. -/
theorem Locked.refreshed (h : s.Locked) (hc : ∀ q ∈ s.candidates, q ∈ s.context.catalog.packs)
    (ht : s.refreshed = .ok t) : t.Locked := by
  obtain ⟨hcontext, hsupplied⟩ := refreshed_eq_ok ht
  have hgroup : t.installGroup = s.installGroup := by
    obtain ⟨candidates, -, ht⟩ := bind_eq_ok_iff.1 ht
    rw [← pure_eq_ok_iff.1 ht]
  intro p hp hr
  have hknown := hsupplied.sublist.subset hp
  have hname := Pack.name_mem_names hp
  rw [hcontext] at hknown
  rw [hgroup, hcontext, mem_refreshed_selected ht]
  by_cases hold : p.name ∈ Pack.names s.candidates
  · have hlocked := h p ((Catalog.name_mem_names_iff hc hknown).1 hold) hr
    exact hlocked.imp_left fun hsel => ⟨hname, .inl hsel⟩
  · exact .inl ⟨hname, .inr ⟨p, hp, hold, Pack.isInitial_of_required hr, rfl⟩⟩

end Session

namespace Context

variable {c : Context} {s t : Session} {name : String}

theorem Reachable.locked (h : c.Reachable s) : s.Locked :=
  h.keeps_selected (fun _ _ ho => Session.locked_of_openSession ho) (fun _ _ _ hl => hl)
    (fun _ _ _ _ _ hs _ hl hq hok _ => hl.toggled hs.known hq hok)
    (fun _ _ _ hs hr => Session.locked_of_resolve hs.known hr)
    (fun _ _ _ _ ht => Session.locked_of_withInstallGroup ht)
    (fun s name value _ hs hl ht => Session.Locked.refreshed (s := s.withVariable name value)
      hl hs.known ht)
    fun _ _ _ hl => hl

/-- Whatever was done to a session, a required candidate is selected, unless a group has been chosen
and another initial pack of its exclude group stands before it in the catalog. Choosing a group
leaves out just those behind which such a candidate stands. -/
theorem Reachable.required_selected (h : c.Reachable s) :
    (∀ p ∈ s.candidates, p.required = true →
      p.name ∈ s.selected ∨ s.installGroup ≠ none ∧ Outranked c.catalog.packs p) ∧
    ∀ name t, s.selectInstallGroup name = ⟨.ok (), t⟩ → ∀ p ∈ t.candidates, p.required = true →
      (p.name ∈ t.selected ↔ ¬ Outranked t.candidates p) := by
  constructor
  · rw [← h.context_eq]
    exact h.locked
  · intro name t ht p hp hr
    exact Session.withInstallGroup_selects_iff (Session.selectInstallGroup_eq_ok_iff.1 ht) hp hr

end Context

/-! ## An installer with two themes -/

/-- An installer of three packs. The two themes exclude each other: `light` is the one that starts
out selected in the install group, `dark` is required. -/
def Definition.themes : Definition where
  packs := [
    { name := "shell", required := true },
    { name := "light", excludeGroup := some "theme", installGroups := .ofList ["user"] },
    { name := "dark", required := true, preselected := false, excludeGroup := some "theme" }]

theorem Definition.themes_loads :
    (Context.ofDefinition Definition.themes {}).toOption.isSome = true := by cbv

/-- What is known about the installer of `Definition.themes`. -/
def Context.themes : Context :=
  (Context.ofDefinition Definition.themes {}).toOption.get Definition.themes_loads

theorem Context.themes_opens : (Context.themes.openSession ∅).toOption.isSome = true := by cbv

/-- A session of the installer of `Definition.themes` in which nothing has been done. -/
def Session.themes : Session := (Context.themes.openSession ∅).toOption.get Context.themes_opens

theorem Session.themes_reachable : Context.themes.Reachable Session.themes :=
  .opened (eq_ok_get Context.themes_opens)

/-- The session in which the only install group has been chosen. -/
def Session.themedUser : Session :=
  Session.themes.narrowed "user" Session.themes.candidates (.ofList ["shell", "light", "dark"])

theorem Session.themes_withInstallGroup :
    Session.themes.withInstallGroup "user" = .ok Session.themedUser := by
  obtain ⟨members, hm, hnames⟩ : ∃ members, InstallGroups.members Session.themes.context.catalog
      Session.themes.candidates "user" = .ok members ∧
        Pack.names members = ["shell", "light", "dark"] := ok_of_toOption_map (by cbv)
  have ha : Session.themes.context.availablePacks
      (Session.themes.vars.insert InstallGroup.chosenVariable "user") =
        .ok Session.themes.candidates := by cbv
  have ht : InstallGroups.tags Session.themes.candidates = .ofList ["user"] := by cbv
  rw [Session.themedUser, ← hnames]
  exact Session.withInstallGroup_of_only ha ht hm

theorem Session.themedUser_reachable : Context.themes.Reachable Session.themedUser :=
  Session.themes_reachable.withInstallGroup trivial Session.themes_withInstallGroup

theorem Session.themedUser_candidates :
    Session.themedUser.candidates = Definition.themes.packs := by cbv

/-- Without a group `dark` is selected, and so is `shell` when the group is chosen. -/
theorem Context.themes_required_selected : ∃ s t, Context.themes.Reachable s ∧
    s.installGroup = none ∧ (∃ p ∈ s.candidates, p.name = "dark" ∧ p.required = true) ∧
      "dark" ∈ s.selected ∧ s.selectInstallGroup "user" = ⟨.ok (), t⟩ ∧ "shell" ∈ t.selected := by
  have hchosen := Session.selectInstallGroup_eq_ok_iff.2 Session.themes_withInstallGroup
  obtain ⟨hlocked, hchoice⟩ := Session.themes_reachable.required_selected
  have hnone : Session.themes.installGroup = none := by cbv
  have hcand : Session.themes.candidates = Definition.themes.packs := by cbv
  obtain ⟨dark, hdark, hname, hr⟩ : ∃ p ∈ Session.themes.candidates,
      p.name = "dark" ∧ p.required = true := by
    rw [hcand]
    simp [Definition.themes]
  obtain ⟨shell, hshell, hshellName, hshellReq, hfree⟩ : ∃ p ∈ Session.themedUser.candidates,
      p.name = "shell" ∧ p.required = true ∧ p.excludeGroup = none := by
    rw [Session.themedUser_candidates]
    simp [Definition.themes]
  have hsel := (hlocked dark hdark hr).resolve_right fun hout => hout.1 hnone
  have hfirst : ¬ Outranked Session.themedUser.candidates shell := by
    rintro ⟨-, group, -, -, -, hg⟩
    rw [hfree] at hg
    cases hg
  have hshellSel := (hchoice "user" _ hchosen shell hshell hshellReq).2 hfirst
  rw [hname] at hsel
  rw [hshellName] at hshellSel
  exact ⟨_, _, Session.themes_reachable, hnone, ⟨dark, hdark, hname, hr⟩, hsel, hchosen, hshellSel⟩

/-- When the group is chosen `light` stands before `dark`, so `dark` is left out, although no other
required candidate shares its exclude group. Closing the session is then refused. -/
theorem Context.themes_required_left_out : ∃ s, Context.themes.Reachable s ∧
    Exclusive (fun p => p ∈ s.candidates ∧ p.required = true) ∧
      (∃ p ∈ s.candidates, p.required = true ∧ p.name ∉ s.selected) ∧
        s.resolution = .error (.exclusionViolated "theme" ["dark", "light"]) := by
  have hcand := Session.themedUser_candidates
  refine ⟨_, Session.themedUser_reachable, ?_, ?_, by cbv⟩
  · have hdark : ∀ p ∈ Session.themedUser.candidates, p.required = true →
        ∀ group, p.excludeGroup = some group → p.name = "dark" := by
      rw [hcand]
      simp [Definition.themes]
    have hknown := Session.themedUser_reachable.known
    rintro p q group ⟨hp, hpr⟩ ⟨hq, hqr⟩ hpg hqg
    have hname := (hdark p hp hpr group hpg).trans (hdark q hq hqr group hqg).symm
    exact Catalog.name_inj (hknown p hp) (hknown q hq) hname
  · have hsel : Session.themedUser.selected.toList = ["light", "shell"] := by cbv
    obtain ⟨p, hp, hname, hr⟩ : ∃ p ∈ Session.themedUser.candidates,
        p.name = "dark" ∧ p.required = true := by
      rw [hcand]
      simp [Definition.themes]
    refine ⟨p, hp, hr, ?_⟩
    rw [hname, ← NameSet.mem_toList, hsel]
    decide

end PackChoice
