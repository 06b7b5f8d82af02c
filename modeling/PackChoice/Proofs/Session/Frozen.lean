import PackChoice.Proofs.Resolution
import PackChoice.Proofs.Session.Candidates

/-!
What closing a session freezes. However a session was reached, the packs of the closed session are
sound (`proceed_frozen`): they can be installed in their order, they hold what was selected and what
is required, they hold nothing that is not a candidate or needed by one, and they pass every check
for which a validator was registered on the way.
-/

namespace PackChoice

open Relation (TransGen)

namespace Session

/-- What the packs frozen for a session satisfy. -/
structure Frozen (s : Session) (packs : List Pack) : Prop where
  known : ∀ p ∈ packs, p ∈ s.context.catalog.packs
  names_nodup : (Pack.names packs).Nodup
  dependencies_before : ∀ before p after, packs = before ++ p :: after →
    ∀ name ∈ p.dependencies, ∃ q ∈ before, q.name = name
  /-- No two packs share an exclude group. -/
  exclusive : Exclusive (· ∈ packs)
  selected : ∀ p ∈ s.candidates, p.name ∈ s.selected → p ∈ packs
  /-- Required packs come along, all of them where no install group is chosen, else those that are
  in no group or in this one. -/
  required : ∀ p ∈ s.context.catalog.packs, p.required = true →
    (∀ group, s.installGroup = some group → p.installGroups = ∅ ∨ group ∈ p.installGroups) →
      p ∈ packs
  nothing_else : ∀ p ∈ packs,
    p ∈ s.candidates ∨ ∃ q ∈ s.candidates, q ∈ packs ∧ TransGen s.context.catalog.DependsOn q p
  accepted : ∀ v ∈ s.validators, ∀ p ∈ packs, v.1 = p.name → v.2 s.vars p packs = true

variable {s : Session} {packs : List Pack}

theorem resolution_eq_ok_iff :
    s.resolution = .ok packs ↔
      s.context.catalog.resolve s.candidates s.requested = .ok packs ∧
        ∀ p ∈ packs, s.accepts packs p = true := by
  unfold resolution
  rw [bind_eq_ok_iff]
  constructor
  · rintro ⟨resolved, hr, h⟩
    cases hf : resolved.find? fun p => !s.accepts resolved p with
    | some p =>
      rw [hf] at h
      cases h
    | none =>
      rw [hf] at h
      rw [← pure_eq_ok_iff.1 h]
      have haccept := List.find?_eq_none.1 hf
      exact ⟨hr, by simpa using haccept⟩
  · rintro ⟨hr, haccept⟩
    have hf : (packs.find? fun p => !s.accepts packs p) = none := by
      rw [List.find?_eq_none]
      simpa using haccept
    refine ⟨packs, hr, ?_⟩
    rw [hf]
    rfl

theorem accepts_eq_true_iff {p : Pack} :
    s.accepts packs p = true ↔ ∀ v ∈ s.validators, v.1 = p.name → v.2 s.vars p packs = true := by
  unfold accepts
  rw [List.all_eq_true]
  refine forall₂_congr fun v _ => ?_
  rw [Bool.or_eq_true, bne_iff_ne, ne_eq, ← imp_iff_not_or]

theorem proceed_of_resolve
    (hr : s.context.catalog.resolve s.candidates s.requested = .ok packs)
    (hv : s.validators = []) :
    s.proceed = .ok ⟨{ s with selected := .ofList (Pack.names packs) }, packs⟩ := by
  have haccept : ∀ p ∈ packs, s.accepts packs p = true := by
    intro p _
    rw [accepts_eq_true_iff, hv]
    exact fun v hvm => absurd hvm List.not_mem_nil
  exact proceed_eq_ok_iff.2 ⟨resolution_eq_ok_iff.2 ⟨hr, haccept⟩, rfl⟩

theorem mem_wanted_requested {p : Pack} :
    p ∈ Catalog.wanted s.candidates s.requested ↔
      p ∈ s.candidates ∧ (p.required = true ∨ p.name ∈ s.selected) := by
  rw [Catalog.mem_wanted]
  refine and_congr_right fun hp => or_congr_right ?_
  rw [requested, Pack.mem_names]
  constructor
  · rintro ⟨q, hq, hname⟩
    have hsel := NameSet.contains_eq_true.1 (List.mem_filter.1 hq).2
    rwa [hname] at hsel
  · intro hname
    exact ⟨p, List.mem_filter.2 ⟨hp, NameSet.contains_eq_true.2 hname⟩, rfl⟩

/-- A resolution is sound already where the candidates are what some variables call for. -/
theorem Supplied.frozen {vars : Variables} (h : s.Supplied vars) (hr : s.resolution = .ok packs) :
    s.Frozen packs := by
  obtain ⟨hresolve, haccept⟩ := resolution_eq_ok_iff.1 hr
  have hc : ∀ p ∈ s.candidates, p ∈ s.context.catalog.packs := fun p hp => h.sublist.subset hp
  obtain ⟨hio, hex, -⟩ := Catalog.resolve_eq_ok hc hresolve
  refine ⟨Catalog.mem_of_resolve hc hresolve, hio.names_nodup,
    fun before p after hsplit name hname => ?_, hex,
    fun p hp hsel => hio.mem_of_seed (mem_wanted_requested.2 ⟨hp, .inr hsel⟩),
    fun p hp hreq hin => ?_, fun p hp => ?_,
    fun v hv p hp => accepts_eq_true_iff.1 (haccept p hp) v hv⟩
  · exact Pack.mem_names.1 (hio.dependencies_before before p after hsplit name hname)
  · have hcand := h.mem_of_required hp hreq fun group hg => Pack.isInInstallGroup_iff.2 (hin group hg)
    exact hio.mem_of_seed (mem_wanted_requested.2 ⟨hcand, .inl hreq⟩)
  · obtain ⟨q, hq, hqp⟩ := (hio.mem_iff p).1 hp
    have hqc := (mem_wanted_requested.1 hq).1
    rcases Relation.reflTransGen_iff_eq_or_transGen.1 hqp with rfl | hqp
    · exact .inl hqc
    · exact .inr ⟨q, hqc, hio.mem_of_seed hq, hqp⟩

end Session

/-- Whatever was done to a session, and whatever of it failed, closing it freezes packs that can be
installed as they stand, and that every validator accepts that was ever registered for one of
them. -/
theorem Context.Follows.proceed_frozen {c : Context} {changes : List Change} {s : Session}
    {d : ClosedSession} (h : c.Follows changes s) (hd : s.proceed = .ok d) :
    s.context = c ∧ s.Frozen d.packs ∧
      ∀ p ∈ d.packs, ∀ validator, .addValidator p.name validator ∈ changes →
        validator s.vars p d.packs = true := by
  have hreach := Context.reachable_iff_follows.2 ⟨changes, h⟩
  obtain ⟨vars, hs⟩ := hreach.supplied
  have hfrozen := hs.frozen (Session.proceed_eq_ok_iff.1 hd).1
  refine ⟨hreach.context_eq, hfrozen, fun p hp validator hv => ?_⟩
  have hregistered : (p.name, validator) ∈ s.validators := by
    rw [h.validators_eq]
    exact List.mem_flatMap.2 ⟨_, hv, List.mem_singleton.2 rfl⟩
  exact hfrozen.accepted _ hregistered p hp rfl

/-- A validator that wants three packs in all. -/
def wantsThree : Validator := fun _ _ packs => packs.length == 3

theorem Context.sample_checked : ((Change.addValidator "app" wantsThree).apply
    Session.sample).proceed.toOption.isSome = true := by cbv

/-- A session of the small installer in which a validator has been registered for `app` and that has
been closed and opened again. -/
def Session.checked : Session :=
  (((Change.addValidator "app" wantsThree).apply sample).proceed.toOption.get
    Context.sample_checked).reopen

/-- The validator is there still when the session is closed once more, after taking out a required
pack has been refused, and it accepts the packs. -/
theorem Context.sample_proceed_frozen : ∃ s d,
    Context.sample.Follows [.addValidator "app" wantsThree, .toggle "core" false] s ∧
      (s.toggle "core" false).result = .error (.packRequired "core") ∧
      s.proceed = .ok d ∧ d.packNames = ["core", "lib", "app"] ∧ s.Frozen d.packs ∧
      ∃ p ∈ d.packs, p.name = "app" ∧ wantsThree s.vars p d.packs = true := by
  have hopen : Context.sample.Follows [] Session.sample := .opened (eq_ok_get Context.sample_opens)
  have hchecked : Context.sample.Follows [.addValidator "app" wantsThree] Session.checked :=
    (hopen.changed _).reopened (eq_ok_get Context.sample_checked)
  have hs := hchecked.changed (.toggle "core" false)
  obtain ⟨d, hd, hnames⟩ : ∃ d,
      ((Change.toggle "core" false).apply Session.checked).proceed = .ok d ∧
        d.packNames = ["core", "lib", "app"] := ok_of_toOption_map (by cbv)
  have happ : "app" ∈ d.packNames := by
    rw [hnames]
    decide
  obtain ⟨p, hp, hname⟩ := Pack.mem_names.1 happ
  obtain ⟨-, hfrozen, haccepted⟩ := hs.proceed_frozen hd
  refine ⟨_, d, hs, by cbv, hd, hnames, hfrozen, p, hp, hname, haccepted p hp wantsThree ?_⟩
  rw [hname]
  exact List.mem_cons_self

end PackChoice
