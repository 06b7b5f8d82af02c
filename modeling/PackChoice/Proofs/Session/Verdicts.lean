import PackChoice.Proofs.Session.GroupChoice

/-!
What a replay makes of the entries of a record. An entry that was picked stands for one pack or is
unmatched (`Entry.StandsFor`, `Entry.Unmatched`), and what is judged of the pack rests on its
condition and on the candidates (`Entry.Judged`). The verdict that is computed is the one that is
judged (`verdict_eq_ok_iff`), so an entry has exactly one. A replay that succeeds lists the
verdicts in the order of the entries, each in one place, and selects what the picked packs and the
required candidates need (`Reachable.replay_accounts`). Entries that were not picked are never
looked at (`replay_congr`).
-/

namespace PackChoice

namespace Session

/-- A pack is required, or its condition holds if it has one. -/
def Offered (s : Session) (p : Pack) : Prop :=
  p.required = true ∨ p.condition = none ∨
    ∃ expression, p.condition = some expression ∧
      s.context.rules.evalExpression s.vars expression = .ok true

/-- A pack is not required and its condition is false. -/
def Withheld (s : Session) (p : Pack) : Prop :=
  p.required ≠ true ∧ ∃ expression, p.condition = some expression ∧
    s.context.rules.evalExpression s.vars expression = .ok false

end Session

namespace Record

variable {c : Catalog} {s t : Session} {r : Record} {e : Entry} {p : Pack} {problem : Problem}
  {v : Verdict}

/-! ## The pack that an entry stands for -/

namespace Entry

/-- An entry stands for the pack at its position or, if it tells none, for the pack of its name. -/
inductive StandsFor (c : Catalog) (e : Entry) (p : Pack) : Prop where
  | byIndex {index : Nat} : e.index = some index → c.packs[index]? = some p → StandsFor c e p
  | byName {name : String} :
      e.index = none → e.name = some name → p ∈ c.packs → p.name = name → StandsFor c e p

/-- Why an entry stands for no pack. The name is of no account when there is a position. -/
inductive Unmatched (c : Catalog) (e : Entry) : Problem → Prop where
  | outOfRange {index : Nat} :
      e.index = some index → c.packs.length ≤ index → Unmatched c e (.invalidIndex index)
  | unknown {name : String} :
      e.index = none → e.name = some name → (∀ p ∈ c.packs, p.name ≠ name) →
        Unmatched c e (.unknownName name)
  | unnamed : e.index = none → e.name = none → Unmatched c e .unnamed

theorem StandsFor.mem (h : e.StandsFor c p) : p ∈ c.packs := by
  cases h with
  | byIndex _ hp => exact List.mem_of_getElem? hp
  | byName _ _ hp _ => exact hp

theorem StandsFor.find (h : e.StandsFor c p) : e.find c = .ok p := by
  unfold Entry.find
  cases h with
  | byIndex hi hp =>
    rw [hi]
    simp only [hp]
  | byName hi hn hp hname =>
    rw [hi, hn]
    simp only [Catalog.get?_eq_some_iff.2 ⟨hp, hname⟩]

theorem Unmatched.find (h : e.Unmatched c problem) : e.find c = .error problem := by
  unfold Entry.find
  cases h with
  | outOfRange hi hlen =>
    rw [hi]
    simp only [List.getElem?_eq_none hlen]
  | @unknown name hi hn hnone =>
    have hget : c.get? name = none :=
      List.find?_eq_none.2 fun p hp => by simpa using hnone p hp
    rw [hi, hn]
    simp only [hget]
  | unnamed hi hn => rw [hi, hn]

/-- Every entry stands for a pack or is unmatched. -/
theorem matched_or_unmatched (c : Catalog) (e : Entry) :
    (∃ p, e.StandsFor c p) ∨ ∃ problem, e.Unmatched c problem := by
  cases hi : e.index with
  | some index =>
    cases hp : c.packs[index]? with
    | some p => exact .inl ⟨p, .byIndex hi hp⟩
    | none => exact .inr ⟨_, .outOfRange hi (List.getElem?_eq_none_iff.1 hp)⟩
  | none =>
    cases hn : e.name with
    | none => exact .inr ⟨_, .unnamed hi hn⟩
    | some name =>
      cases hget : c.get? name with
      | some p =>
        obtain ⟨hp, hname⟩ := Catalog.get?_eq_some_iff.1 hget
        exact .inl ⟨p, .byName hi hn hp hname⟩
      | none =>
        have hnone := List.find?_eq_none.1 hget
        exact .inr ⟨_, .unknown hi hn fun p hp => by simpa using hnone p hp⟩

/-! ## The verdict on an entry -/

/-- What is to be made of an entry that was picked. -/
inductive Judged (s : Session) (e : Entry) : Verdict → Prop where
  | unmatched {problem : Problem} :
      e.Unmatched s.context.catalog problem → Judged s e (.problem problem)
  | unavailable {p : Pack} :
      e.StandsFor s.context.catalog p → s.Offered p → p ∉ s.candidates →
        Judged s e (.problem (.unavailable p.name))
  | skipped {p : Pack} :
      e.StandsFor s.context.catalog p → s.Withheld p → Judged s e (.skipped p.name)
  | picked {p : Pack} :
      e.StandsFor s.context.catalog p → s.Offered p → p ∈ s.candidates →
        Judged s e (.picked p.name)

theorem StandsFor.verdict_withheld (h : e.StandsFor s.context.catalog p)
    (ho : s.context.offers s.vars p = .ok false) : e.verdict s = .ok (.skipped p.name) := by
  unfold Entry.verdict
  rw [h.find]
  simp only [ho]
  rfl

theorem StandsFor.verdict_offered (h : e.StandsFor s.context.catalog p)
    (ho : s.context.offers s.vars p = .ok true) :
    e.verdict s = .ok (if p.name ∈ Pack.names s.candidates then .picked p.name
      else .problem (.unavailable p.name)) := by
  unfold Entry.verdict
  rw [h.find]
  simp only [ho, bind, Except.bind, if_true, Session.isCandidate_iff]
  split <;> rfl

theorem Unmatched.verdict (h : e.Unmatched s.context.catalog problem) :
    e.verdict s = .ok (.problem problem) := by
  unfold Entry.verdict
  rw [h.find]

theorem Judged.verdict (hl : s.context.Loaded)
    (hc : ∀ p ∈ s.candidates, p ∈ s.context.catalog.packs) (h : e.Judged s v) :
    e.verdict s = .ok v := by
  cases h with
  | unmatched hu => exact hu.verdict
  | @unavailable p hp ho hcand =>
    have hname := mt (Catalog.name_mem_names_iff hc hp.mem).1 hcand
    rw [hp.verdict_offered ((hl.offers_eq_true_iff s.vars hp.mem).2 ho), if_neg hname]
  | skipped hp hw => exact hp.verdict_withheld ((hl.offers_eq_false_iff s.vars hp.mem).2 hw)
  | @picked p hp ho hcand =>
    rw [hp.verdict_offered ((hl.offers_eq_true_iff s.vars hp.mem).2 ho),
      if_pos (Pack.name_mem_names hcand)]

theorem exists_judged (hl : s.context.Loaded) (e : Entry) : ∃ v, e.Judged s v := by
  rcases e.matched_or_unmatched s.context.catalog with ⟨p, hp⟩ | ⟨problem, hu⟩
  · obtain ⟨offered, ho⟩ := hl.offers_ok s.vars hp.mem
    cases offered with
    | false => exact ⟨_, .skipped hp ((hl.offers_eq_false_iff s.vars hp.mem).1 ho)⟩
    | true =>
      have ho := (hl.offers_eq_true_iff s.vars hp.mem).1 ho
      by_cases hcand : p ∈ s.candidates
      · exact ⟨_, .picked hp ho hcand⟩
      · exact ⟨_, .unavailable hp ho hcand⟩
  · exact ⟨_, .unmatched hu⟩

theorem verdict_eq_ok_iff (hl : s.context.Loaded)
    (hc : ∀ p ∈ s.candidates, p ∈ s.context.catalog.packs) :
    e.verdict s = .ok v ↔ e.Judged s v := by
  refine ⟨fun h => ?_, fun h => h.verdict hl hc⟩
  obtain ⟨judged, hj⟩ := e.exists_judged hl
  rw [hj.verdict hl hc] at h
  exact Except.ok.inj h ▸ hj

end Entry

/-! ## The verdicts on a record -/

/-- Each verdict is in one place of the report or among the packs picked. -/
theorem length_verdicts (verdicts : List Verdict) :
    (problems verdicts).length + (skippedNames verdicts).length + (pickedNames verdicts).length =
      verdicts.length := by
  unfold problems skippedNames pickedNames
  induction verdicts with
  | nil => rfl
  | cons verdict verdicts ih =>
    cases verdict <;> grind

/-- Of the entries a replay depends on those that were picked, and on nothing else. -/
theorem replay_congr {entries : List Entry} (h : entries.filter (·.selected) = r.picks)
    (s : Session) : ({ r with entries } : Record).replay s = r.replay s := by
  have hpicks : ({ r with entries } : Record).picks = r.picks := h
  have happly : ({ r with entries } : Record).apply s = r.apply s := by
    unfold apply
    rw [hpicks]
    rfl
  unfold replay
  rw [happly]

theorem chooseGroup_vars (h : r.chooseGroup s = ⟨.ok (), t⟩) :
    t.vars = match r.installGroup with
      | none => s.vars
      | some group => s.vars.insert InstallGroup.chosenVariable group := by
  rcases chooseGroup_eq_ok h with ⟨hg, rfl⟩ | ⟨group, hg, ht⟩
  · rw [hg]
  · obtain ⟨-, -, -, -, -, -, rfl⟩ := Session.withInstallGroup_eq_ok_iff.1 ht
    rw [hg]
    rfl

end Record

open Record

theorem Context.Reachable.chooseGroup {c : Context} {s t : Session} {r : Record}
    (h : c.Reachable s) (ht : r.chooseGroup s = ⟨.ok (), t⟩) : c.Reachable t := by
  rcases chooseGroup_eq_ok ht with ⟨-, rfl⟩ | ⟨group, -, ht⟩
  · exact h
  · exact h.withInstallGroup trivial ht

/-- A replay that succeeds accounts for every entry that was picked, in order: the one verdict on
it, under the variables and with the candidates that the group of the record brings, is a problem or
a name that is skipped, or the entry is picked. What is selected then is what is reported, and that
is what the required candidates and the packs picked need. All other entries may be left out. -/
theorem Context.Reachable.replay_accounts {definition : Definition} {options : Options}
    {c : Context} {s u : Session} {r : Record} {report : Report}
    (hdef : ofDefinition definition options = .ok c) (h : c.Reachable s)
    (hok : (r.replay s).outcome = ⟨.ok report, u⟩) :
    ∃ t verdicts, r.chooseGroup s = ⟨.ok (), t⟩ ∧ u = { t with selected := u.selected } ∧
      (t.vars = match r.installGroup with
        | none => s.vars
        | some group => s.vars.insert InstallGroup.chosenVariable group) ∧
      List.Forall₂ (fun e verdict => ∀ v, e.Judged t v ↔ v = verdict) r.picks verdicts ∧
      report.problems = problems verdicts ∧ report.skipped = skippedNames verdicts ∧
      (problems verdicts).length + (skippedNames verdicts).length + (pickedNames verdicts).length =
        r.picks.length ∧
      (∀ name, name ∈ u.selected ↔ name ∈ report.selected) ∧
      (∀ name, name ∈ report.selected ↔ ∃ q ∈ u.candidates,
        (q.required = true ∨ q.name ∈ pickedNames verdicts) ∧
          ∃ p, c.catalog.Needs q p ∧ p.name = name) ∧
      ∀ entries, entries.filter (·.selected) = r.picks →
        ({ r with entries } : Record).replay s = r.replay s := by
  obtain ⟨t, verdicts, packs, hchosen, hverdicts, hr, rfl, rfl⟩ :=
    apply_eq_ok_iff.1 (replay_eq_ok_iff.1 hok)
  have ht : c.Reachable t := h.chooseGroup hchosen
  have hcontext : t.context = c := ht.context_eq
  have hloaded : t.context.Loaded := hcontext ▸ (ofDefinition_eq_ok hdef).1
  have hjudged : ∀ e verdict, Entry.verdict t e = .ok verdict →
      ∀ v, e.Judged t v ↔ v = verdict := by
    intro e verdict hv v
    rw [← Entry.verdict_eq_ok_iff hloaded ht.known, hv, Except.ok.injEq, eq_comm]
  refine ⟨t, verdicts, hchosen, rfl, chooseGroup_vars hchosen,
    (mapM_eq_ok_iff.1 hverdicts).imp hjudged, rfl, rfl, ?_, fun name => NameSet.mem_ofList,
    fun name => ?_, fun entries he => replay_congr he s⟩
  · exact (length_verdicts verdicts).trans (length_of_mapM_eq_ok hverdicts)
  · obtain ⟨hio, -, -⟩ := Catalog.resolve_eq_ok ht.known hr
    rw [← hcontext, Pack.mem_names]
    simp only [hio.mem_iff, Catalog.mem_wanted]
    grind

/-- A record of entries of every kind: a position behind the end of the catalog, a name that no pack
has, nothing at all, a pack outside the group of users, one whose condition is false, one to be
picked, and one that was not picked. -/
def Record.office : Record where
  installGroup := some "user"
  entries := [
    { index := some 9, name := some "app", selected := true },
    { name := some "ed", selected := true },
    { selected := true },
    { name := some "dbg", selected := true },
    { index := some 4, selected := true },
    { name := some "app", selected := true },
    { name := some "lit" }]

/-- `lib` comes with `app`, and `lit` is left out although it is initial. -/
theorem Session.office_replay_accounts : ∃ s t u report verdicts,
    Context.ofDefinition Definition.office {} = .ok Context.office ∧
      Context.office.Reachable s ∧ (Record.office.replay s).outcome = ⟨.ok report, u⟩ ∧
      report.problems =
        [.invalidIndex 9, .unknownName "ed", .unnamed, .unavailable "dbg"] ∧
      report.skipped = ["man"] ∧ report.selected = ["os", "lib", "app"] ∧
      Record.office.chooseGroup s = ⟨.ok (), t⟩ ∧
      List.Forall₂ (fun e verdict => ∀ v, e.Judged t v ↔ v = verdict) Record.office.picks
        verdicts ∧
      report.problems = problems verdicts ∧ report.skipped = skippedNames verdicts ∧
      (∀ name, name ∈ u.selected ↔ name ∈ report.selected) ∧
      ({ Record.office with entries := Record.office.picks } : Record).replay s =
        Record.office.replay s := by
  let verdicts : List Verdict :=
    [.problem (.invalidIndex 9), .problem (.unknownName "ed"), .problem .unnamed,
      .problem (.unavailable "dbg"), .skipped "man", .picked "app"]
  have hchosen : Record.office.chooseGroup Session.office = ⟨.ok (), Session.officeUser⟩ :=
    Session.selectInstallGroup_eq_ok_iff.2 Session.office_withInstallGroup
  have hverdicts : Record.office.picks.mapM (Entry.verdict Session.officeUser) = .ok verdicts := by
    cbv
  obtain ⟨packs, hr, hnames⟩ : ∃ packs, Session.officeUser.context.catalog.resolve
      Session.officeUser.candidates (pickedNames verdicts) = .ok packs ∧
        Pack.names packs = ["os", "lib", "app"] := ok_of_toOption_map (by cbv)
  have hok := replay_eq_ok_iff.2
    (apply_eq_ok_iff.2 ⟨_, verdicts, packs, hchosen, hverdicts, hr, rfl, rfl⟩)
  obtain ⟨t, verdicts', ht, -, -, hjudged, hproblems, hskipped, -, hselected, -, hrest⟩ :=
    Session.office_reachable.replay_accounts Context.ofDefinition_office hok
  exact ⟨_, t, _, _, verdicts', Context.ofDefinition_office, Session.office_reachable, hok, rfl,
    rfl, hnames, ht, hjudged, hproblems, hskipped, hselected,
    hrest Record.office.picks (by simp [picks])⟩

end PackChoice
