import PackChoice.Proofs.Session.Anchored
import PackChoice.Proofs.Session.Coherent

/-!
Variables that leave the candidates as they are. Finding the same candidates anew adds nothing to
the selection and takes out what is no candidate. A pack that is no candidate may well be selected,
as a dependency of one (`Reachable.backed`), and it is dropped although nothing became unavailable.
So the selection stays as it was exactly when it lies within the candidates
(`setVariable_same_candidates`). What closing asks for stays the same in any case.
-/

namespace PackChoice

open Relation (ReflTransGen)

namespace Session

variable {s t : Session} {p : Pack} {name value : String} {selected : NameSet}

/-! ## Selected packs and the candidates -/

/-- Every pack selected is a candidate or needed by one. -/
def Backed (s : Session) : Prop :=
  ∀ name ∈ s.selected, ∃ q ∈ s.candidates, ∃ p, s.context.catalog.Needs q p ∧ p.name = name

theorem Moored.backed (h : s.Moored) : s.Backed := by
  intro name hsel
  obtain ⟨q, hq, -, hneeds⟩ := h name hsel
  exact ⟨q, hq, hneeds⟩

theorem Backed.toggled (hc : ∀ p ∈ s.candidates, p ∈ s.context.catalog.packs) (h : s.Backed)
    {on : Bool} (hp : p ∈ s.candidates)
    (hsel : (if on then s.selectionWith p else s.selectionWithout p) = .ok selected) :
    ({ s with selected } : Session).Backed := by
  intro name hname
  cases on with
  | true =>
    rcases (mem_selectionWith hc (hc p hp) hsel).1 hname with hneeds | ⟨hbefore, -⟩
    · exact ⟨p, hp, hneeds⟩
    · exact h name hbefore
  | false => exact h name ((mem_selectionWithout hsel).1 hname).1

/-- Where the candidates contain their own dependencies, nothing but candidates is selected. -/
theorem Backed.isCandidate (h : s.Backed) (hc : s.Complete) (hsel : name ∈ s.selected) :
    s.isCandidate name = true := by
  obtain ⟨q, hq, p, hqp, rfl⟩ := h name hsel
  exact isCandidate_iff.2 (Pack.name_mem_names (hc.of_needs hq hqp))

/-! ## The same candidates -/

theorem mem_refreshed_of_same_candidates (h : s.refreshed = .ok t)
    (hc : t.candidates = s.candidates) :
    name ∈ t.selected ↔ s.isCandidate name = true ∧ name ∈ s.selected := by
  rw [mem_refreshed_selected h, hc, isCandidate_iff]
  constructor
  · rintro ⟨hname, hsel | ⟨p, hp, hnew, -, -⟩⟩
    · exact ⟨hname, hsel⟩
    · exact absurd (Pack.name_mem_names hp) hnew
  · rintro ⟨hname, hsel⟩
    exact ⟨hname, .inl hsel⟩

theorem requested_congr (hc : t.candidates = s.candidates)
    (hs : ∀ name, s.isCandidate name = true → (name ∈ t.selected ↔ name ∈ s.selected)) :
    t.requested = s.requested := by
  unfold requested
  rw [hc]
  refine congrArg Pack.names (List.filter_congr fun p hp => Bool.eq_iff_iff.2 ?_)
  rw [NameSet.contains_eq_true, NameSet.contains_eq_true]
  exact hs p.name (isCandidate_iff.2 (Pack.name_mem_names hp))

end Session

namespace Context

variable {c : Context} {s t : Session} {name value : String}

theorem Reachable.backed (h : c.Reachable s) : s.Backed :=
  h.keeps_selected (P := Session.Backed) (fun _ _ ho => (Session.moored_of_openSession ho).backed)
    (fun _ _ _ hs => hs) (fun _ _ _ _ _ hs _ hb hp hsel _ => hb.toggled hs.known hp hsel)
    (fun _ _ _ hs hr => (Session.moored_of_resolve hs.known hr).backed)
    (fun _ _ _ _ hg => (Session.moored_of_withInstallGroup hg).backed)
    (fun _ _ _ _ _ _ hr => (Session.moored_of_refreshed hr).backed) fun _ _ _ hs => hs

/-- Setting a variable that leaves the candidates as they are keeps of the selection the candidates
and nothing else. What it drops was selected as a dependency, of a candidate that is still there. So
the selection is kept just when it holds candidates only, as it does wherever the candidates contain
their own dependencies. -/
theorem Reachable.setVariable_same_candidates (h : c.Reachable s)
    (hok : s.setVariable name value = ⟨.ok (), t⟩) (hcand : t.candidates = s.candidates) :
    (t.selected = s.selected ↔ ∀ other ∈ s.selected, s.isCandidate other = true) ∧
      (s.Complete → t.selected = s.selected) ∧
      (∀ other, other ∈ t.selected ↔ s.isCandidate other = true ∧ other ∈ s.selected) ∧
      (∀ other ∈ s.selected, other ∉ t.selected → ∃ q ∈ t.candidates, ∃ p, p ∉ t.candidates ∧
        c.catalog.Needs q p ∧ p.name = other) ∧
      t.requested = s.requested := by
  have hmem : ∀ other, other ∈ t.selected ↔ s.isCandidate other = true ∧ other ∈ s.selected :=
    fun other => Session.mem_refreshed_of_same_candidates (s := s.withVariable name value)
      (Session.setVariable_eq_ok_iff.1 hok) hcand
  have hiff : t.selected = s.selected ↔ ∀ other ∈ s.selected, s.isCandidate other = true := by
    constructor
    · intro hsame other hsel
      exact ((hmem other).1 (hsame ▸ hsel)).1
    · intro hall
      exact NameSet.ext fun other => (hmem other).trans
        ⟨And.right, fun hsel => ⟨hall other hsel, hsel⟩⟩
  refine ⟨hiff, fun hcomplete => hiff.2 fun other hsel => h.backed.isCandidate hcomplete hsel, hmem,
    fun other hsel hgone => ?_, Session.requested_congr hcand fun other hin => ?_⟩
  · obtain ⟨q, hq, p, hqp, rfl⟩ := h.backed other hsel
    have hout : p ∉ s.candidates := fun hp =>
      hgone ((hmem p.name).2 ⟨Session.isCandidate_iff.2 (Pack.name_mem_names hp), hsel⟩)
    rw [h.context_eq] at hqp
    exact ⟨q, hcand ▸ hq, p, hcand ▸ hout, hqp, rfl⟩
  · rw [hmem, and_iff_right hin]

/-- In a studio `red` is a candidate, so it stays selected beside `paint` when the language is set. -/
theorem palette_setVariable_keeps_selected : ∃ s t, palette.Reachable s ∧
    s.setVariable "LANG" "en" = ⟨.ok (), t⟩ ∧ t.candidates = s.candidates ∧
      s.selected.toList = ["paint", "red"] ∧ t.selected = s.selected := by
  let studio := Change.setVariable "STUDIO" "yes"
  let paint := Change.toggle "paint" true
  obtain ⟨s, hs, hok, hcand, hsel, hnames⟩ : ∃ s, palette.Reachable s ∧
      (s.setVariable "LANG" "en").result = .ok () ∧
      (s.setVariable "LANG" "en").session.candidates = s.candidates ∧
      s.selected.toList = ["paint", "red"] ∧
      Pack.names s.candidates = ["paint", "red", "blue"] := by
    have hs : palette.Reachable (paint.apply (studio.apply Session.palette)) :=
      (Session.palette_reachable.changed trivial).changed trivial
    exact ⟨_, hs, by cbv, by cbv, by cbv, by cbv⟩
  have ht : s.setVariable "LANG" "en" = ⟨.ok (), (s.setVariable "LANG" "en").session⟩ := by
    rw [← hok]
  obtain ⟨hiff, -⟩ := hs.setVariable_same_candidates ht hcand
  refine ⟨s, _, hs, ht, hcand, hsel, hiff.2 fun other hother => ?_⟩
  rw [← NameSet.mem_toList, hsel] at hother
  rw [Session.isCandidate_iff, hnames]
  exact List.mem_of_mem_take (i := 2) hother

/-- Outside the studio `red` is no candidate and comes with `paint`. When the language is set the
candidates are the same, but `red` is dropped, although `paint`, which needs it, stays. -/
theorem palette_setVariable_drops_selected : ∃ s t, palette.Reachable s ∧
    s.setVariable "LANG" "en" = ⟨.ok (), t⟩ ∧ t.candidates = s.candidates ∧
      s.selected.toList = ["paint", "red"] ∧ t.selected.toList = ["paint"] ∧
      t.selected ≠ s.selected := by
  let paint := Change.toggle "paint" true
  obtain ⟨s, hs, hok, hcand, hbefore, hafter⟩ : ∃ s, palette.Reachable s ∧
      (s.setVariable "LANG" "en").result = .ok () ∧
      (s.setVariable "LANG" "en").session.candidates = s.candidates ∧
      s.selected.toList = ["paint", "red"] ∧
      (s.setVariable "LANG" "en").session.selected.toList = ["paint"] := by
    have hs : palette.Reachable (paint.apply Session.palette) :=
      Session.palette_reachable.changed trivial
    exact ⟨_, hs, by cbv, by cbv, by cbv, by cbv⟩
  have ht : s.setVariable "LANG" "en" = ⟨.ok (), (s.setVariable "LANG" "en").session⟩ := by
    rw [← hok]
  refine ⟨s, _, hs, ht, hcand, hbefore, hafter, fun hsame => ?_⟩
  rw [hsame, hbefore] at hafter
  exact absurd hafter (by decide)

end Context

end PackChoice
