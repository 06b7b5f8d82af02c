import PackChoice.Proofs.Session.Reclosed
import PackChoice.Proofs.Session.Steady
import PackChoice.Proofs.Session.Verdicts

/-!
Selections that are made again. The record of a closed session lists candidates only, while packs
from outside them may have been frozen as well. Replaying it in a session of the same context with
the same variables finds every entry again (`verdicts_ofClosed`), and resolving what they pick gives
the frozen packs back, because each of them is needed by a candidate among them
(`Catalog.resolve_again`). The candidates themselves are had again by choosing the group once more,
if no variable was set after the first choice (`Steady.replay_ofClosed`).
-/

namespace PackChoice

/-- The candidates among the packs to install. -/
def ClosedSession.chosen (d : ClosedSession) : List Pack :=
  d.session.candidates.filter fun p => d.packNames.contains p.name

namespace Record

variable {d : ClosedSession} {s t : Session}

theorem mem_chosen (hc : ∀ p ∈ d.session.candidates, p ∈ s.context.catalog.packs)
    (hd : ∀ p ∈ d.packs, p ∈ s.context.catalog.packs) {p : Pack} :
    p ∈ d.chosen ↔ p ∈ d.session.candidates ∧ p ∈ d.packs := by
  rw [ClosedSession.chosen, List.mem_filter]
  refine and_congr_right fun hp => ?_
  rw [List.contains_iff_mem, ClosedSession.packNames, Catalog.name_mem_names_iff hd (hc p hp)]

theorem picks_ofClosed (d : ClosedSession) :
    (ofClosed d).picks = d.chosen.map fun p =>
      { index := d.session.context.catalog.indexOf? p.name
        name := some p.name
        selected := true } := by
  unfold picks ofClosed ClosedSession.chosen
  rw [List.filter_map]
  refine List.map_congr_left fun p hp => ?_
  have hselected := (List.mem_filter.1 hp).2
  simp only [Function.comp_apply] at hselected
  rw [hselected]

theorem verdict_eq_picked {p : Pack} {e : Entry} (hp : p ∈ t.candidates)
    (hc : p ∈ t.context.catalog.packs) (he : e.index = t.context.catalog.indexOf? p.name)
    (ho : t.context.offers t.vars p = .ok true) : e.verdict t = .ok (.picked p.name) := by
  obtain ⟨i, hi⟩ := Catalog.indexOf?_of_mem (Pack.name_mem_names hc)
  obtain ⟨q, hq, hname⟩ := Catalog.indexOf?_eq_some_iff.1 hi
  obtain rfl := Catalog.name_inj (List.mem_of_getElem? hq) hc hname
  have hstands : e.StandsFor t.context.catalog q := .byIndex (he.trans hi) hq
  rw [hstands.verdict_offered ho, if_pos (Pack.name_mem_names hp)]

/-- Where the candidates and the packs on offer are those of the closed session, each entry that was
picked is found and can be selected. -/
theorem verdicts_ofClosed (hc : t.context = d.session.context)
    (hcand : t.candidates = d.session.candidates)
    (ho : ∀ p ∈ t.candidates, p ∈ t.context.catalog.packs ∧ t.context.offers t.vars p = .ok true) :
    (ofClosed d).picks.mapM (Entry.verdict t) = .ok (d.chosen.map fun p => .picked p.name) := by
  rw [picks_ofClosed]
  refine mapM_map_eq_ok fun p hp => ?_
  have hpc : p ∈ t.candidates := hcand ▸ List.mem_of_mem_filter hp
  obtain ⟨hknown, hoffered⟩ := ho p hpc
  exact verdict_eq_picked hpc hknown (by rw [hc]) hoffered

@[simp] theorem pickedNames_map (packs : List Pack) :
    pickedNames (packs.map fun p => .picked p.name) = Pack.names packs := by
  simp [pickedNames, Pack.names, List.filterMap_map]

@[simp] theorem skippedNames_map (packs : List Pack) :
    skippedNames (packs.map fun p => .picked p.name) = [] := by
  simp [skippedNames]

@[simp] theorem problems_map (packs : List Pack) :
    problems (packs.map fun p => .picked p.name) = [] := by
  simp [problems]

/-- A replay gives the frozen packs back once its group has been chosen. -/
theorem replay_of_chooseGroup {names : List String}
    (hchoose : (ofClosed d).chooseGroup t = ⟨.ok (), s⟩)
    (hc : s.context = d.session.context) (hcand : s.candidates = d.session.candidates)
    (ho : ∀ p ∈ s.candidates, p ∈ s.context.catalog.packs ∧ s.context.offers s.vars p = .ok true)
    (hpacks : s.context.catalog.resolve s.candidates names = .ok d.packs) :
    ∃ packs, (∀ p, p ∈ packs ↔ p ∈ d.packs) ∧
      ((ofClosed d).replay t).outcome =
        ⟨.ok ⟨Pack.names packs, [], []⟩, { s with selected := .ofList (Pack.names packs) }⟩ := by
  have hknown : ∀ p ∈ s.candidates, p ∈ s.context.catalog.packs := fun p hp => (ho p hp).1
  have hchosen : ∀ p, p ∈ d.chosen ↔ p ∈ s.candidates ∧ p ∈ d.packs := by
    intro p
    rw [hcand]
    exact mem_chosen (hcand ▸ hknown) (Catalog.mem_of_resolve hknown hpacks)
  -- Packs from outside the candidates are not among the chosen ones and come back by the closure.
  obtain ⟨packs, hr, hmem⟩ := Catalog.resolve_again hknown hpacks hchosen
  refine ⟨packs, hmem, replay_eq_ok_iff.2 (apply_eq_ok_iff.2 ⟨s, _, packs, hchoose,
    verdicts_ofClosed hc hcand ho, ?_, ?_, rfl⟩)⟩
  · rw [pickedNames_map]
    exact hr
  · rw [skippedNames_map, problems_map]

end Record

/-- A selection that was recorded when a steady session was closed can be repeated in every session
of the context with the same variables. The variable that names the group may differ if the record
names a group; if not, there may be none in force. -/
theorem Context.Steady.replay_ofClosed {c : Context} {definition : Definition} {options : Options}
    {s t : Session} {d : ClosedSession} (hdef : ofDefinition definition options = .ok c)
    (hs : c.Steady s) (hd : s.proceed = .ok d) (ht : c.Reachable t)
    (hv : ∀ v, d.session.installGroup = none ∨ v ≠ InstallGroup.chosenVariable →
      t.vars.get? v = d.session.vars.get? v)
    (hg : d.session.installGroup = none → t.installGroup = none) :
    ∃ report u, ((Record.ofClosed d).replay t).outcome = ⟨.ok report, u⟩ ∧
      report.problems = [] ∧ report.skipped = [] ∧
      u.installGroup = d.session.installGroup ∧ u.candidates = d.session.candidates ∧
      (∀ name, name ∈ report.selected ↔ name ∈ d.packNames) ∧
      (t.validators = [] → ∃ e, u.proceed = .ok e ∧ ∀ p, p ∈ e.packs ↔ p ∈ d.packs) := by
  have hl : c.Loaded := (ofDefinition_eq_ok hdef).1
  obtain ⟨hres, hsession⟩ := Session.proceed_eq_ok_iff.1 hd
  obtain ⟨hpacks, -⟩ := Session.resolution_eq_ok_iff.1 hres
  -- The closed session is as steady as the one that was closed, so it says what to choose in `t`.
  have hds : c.Steady d.session := hs.reopened hd
  have hfounded := hds.founded hl
  have hcontext : t.context = d.session.context :=
    ht.context_eq.trans hds.reachable.context_eq.symm
  obtain ⟨selected, hchoose⟩ := hfounded.chooseGroup_alike (r := .ofClosed d) rfl hcontext hv
    fun hn => ⟨hg hn, ht.founded_of_none hl (hg hn)⟩
  have ho : ∀ p ∈ d.session.candidates,
      p ∈ t.context.catalog.packs ∧ t.context.offers d.session.vars p = .ok true := by
    rw [hcontext]
    exact fun p hp => hfounded.offers hp
  have hresolve : t.context.catalog.resolve d.session.candidates s.requested = .ok d.packs := by
    rw [hcontext, hsession]
    exact hpacks
  obtain ⟨packs, hmem, hout⟩ := Record.replay_of_chooseGroup hchoose hcontext rfl ho hresolve
  have hnames : ∀ name, name ∈ Pack.names packs ↔ name ∈ d.packNames := by
    intro name
    rw [ClosedSession.packNames, Pack.mem_names, Pack.mem_names]
    simp only [hmem]
  refine ⟨_, _, hout, rfl, rfl, rfl, rfl, hnames, fun hvalidators => ?_⟩
  refine Session.proceed_of_selected (fun p hp => (ho p hp).1) hresolve (fun name => ?_) hvalidators
  rw [NameSet.mem_ofList, hnames, ClosedSession.packNames]

/-- `red` is frozen although it is no candidate, so the record does not list it. The session in
which the record is replayed names another group and has `blue` selected. -/
theorem Context.palette_replay_ofClosed : ∃ s d t report u,
    Context.palette.Steady s ∧ s.proceed = .ok d ∧ d.packNames = ["red", "paint"] ∧
      Pack.names d.session.candidates = ["paint", "blue"] ∧ Context.palette.Reachable t ∧
      t.vars.get? InstallGroup.chosenVariable = some "painter" ∧ t.selected.toList = ["blue"] ∧
      ((Record.ofClosed d).replay t).outcome = ⟨.ok report, u⟩ ∧
      u.installGroup = some "artist" ∧ (∀ name, name ∈ report.selected ↔ name ∈ ["red", "paint"]) ∧
      ∃ e, u.proceed = .ok e ∧ ∀ p, p ∈ e.packs ↔ p ∈ d.packs := by
  let blueOn := Change.toggle "blue" true
  let rename := Change.setVariable InstallGroup.chosenVariable "painter"
  have hartist := Session.palette_withInstallGroup Session.palette_reachable (by cbv)
  obtain ⟨s, d, hs, hd, hnames, hcand, hgroup, hvars⟩ : ∃ s d, Context.palette.Steady s ∧
      s.proceed = .ok d ∧ d.packNames = ["red", "paint"] ∧
      Pack.names d.session.candidates = ["paint", "blue"] ∧
      d.session.installGroup = some "artist" ∧
      d.session.vars = (∅ : Variables).insert InstallGroup.chosenVariable "artist" := by
    have hs : Context.palette.Steady
        ((Change.toggle "blue" false).apply Session.palette.withArtist) := by
      have hchosen := Context.Steady.chosen Session.palette_reachable
        (Session.selectInstallGroup_eq_ok_iff.2 hartist)
      refine hchosen.changed fun name value he => ?_
      cases he
    have hok : ((Change.toggle "blue" false).apply
        Session.palette.withArtist).proceed.toOption.isSome = true := by cbv
    exact ⟨_, _, hs, eq_ok_get hok, by cbv, by cbv, by cbv, by cbv⟩
  obtain ⟨t, ht, htvars, htsel, htval⟩ : ∃ t, Context.palette.Reachable t ∧
      t.vars = (∅ : Variables).insert InstallGroup.chosenVariable "painter" ∧
      t.selected.toList = ["blue"] ∧ t.validators = [] := by
    have ht : Context.palette.Reachable (blueOn.apply (rename.apply Session.palette)) :=
      (Session.palette_reachable.changed trivial).changed trivial
    exact ⟨_, ht, by cbv, by cbv, by cbv⟩
  have hv : ∀ v, d.session.installGroup = none ∨ v ≠ InstallGroup.chosenVariable →
      t.vars.get? v = d.session.vars.get? v := by
    rintro v (hn | hne)
    · rw [hgroup] at hn
      cases hn
    · rw [htvars, hvars, NameMap.get?_insert, NameMap.get?_insert, if_neg hne, if_neg hne]
  have hg : d.session.installGroup = none → t.installGroup = none := by
    intro hn
    rw [hgroup] at hn
    cases hn
  obtain ⟨report, u, hout, -, -, hug, -, hselected, hproceed⟩ :=
    Context.Steady.replay_ofClosed Context.ofDefinition_palette hs hd ht hv hg
  have hpainter : t.vars.get? InstallGroup.chosenVariable = some "painter" := by
    rw [htvars, NameMap.get?_insert, if_pos rfl]
  refine ⟨s, d, t, report, u, hs, hd, hnames, hcand, ht, hpainter, htsel, hout,
    hug.trans hgroup, fun name => ?_, hproceed htval⟩
  rw [hselected, hnames]

end PackChoice
