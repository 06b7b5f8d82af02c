import PackChoice.Proofs.Session.Candidates
import PackChoice.Proofs.Session.Editing

/-!
What a refusal leaves behind. Apart from setting a variable, an operation that fails leaves the
session as it was (`failed_unchanged`). Carried out step by step most operations write last, so
there is nothing to undo. For a replay that takes putting things back, since it fails in one of
three places (`Record.Fails`) and in two of them the install group has been chosen already. What
does outlast the failure are the problems that it has met (`Record.met_eq`).
-/

namespace PackChoice

namespace Record

variable {s t : Session} {r : Record} {e : Error}

/-- Where a replay fails: the install group cannot be chosen, the condition of an entry has no
value, or what was picked does not resolve. -/
inductive Fails (r : Record) (s : Session) (e : Error) : Prop where
  | choosing : (r.chooseGroup s).result = .error e → Fails r s e
  | judging {t : Session} :
      r.chooseGroup s = ⟨.ok (), t⟩ → r.picks.mapM (Entry.verdict t) = .error e → Fails r s e
  | selecting {t : Session} {verdicts : List Verdict} :
      r.chooseGroup s = ⟨.ok (), t⟩ → r.picks.mapM (Entry.verdict t) = .ok verdicts →
        (t.select (pickedNames verdicts)).result = .error e → Fails r s e

theorem Fails.apply_result (h : r.Fails s e) : (r.apply s).outcome.result = .error e := by
  cases h with
  | choosing hc => simp [apply, hc]
  | judging hc hv => simp [apply, hc, hv]
  | selecting hc hv hs => simp [apply, hc, hv, hs, Except.map]

theorem fails_or_apply_ok (r : Record) (s : Session) :
    (∃ e, r.Fails s e) ∨ ∃ report, (r.apply s).outcome.result = .ok report := by
  obtain ⟨⟨result, t⟩, hc⟩ : ∃ chosen, r.chooseGroup s = chosen := ⟨_, rfl⟩
  cases result with
  | error e => exact .inl ⟨e, .choosing (congrArg Outcome.result hc)⟩
  | ok _ =>
    cases hv : r.picks.mapM (Entry.verdict t) with
    | error e => exact .inl ⟨e, .judging hc hv⟩
    | ok verdicts =>
      cases hs : (t.select (pickedNames verdicts)).result with
      | error e => exact .inl ⟨e, .selecting hc hv hs⟩
      | ok packs =>
        exact .inr ⟨_, by simp [apply, hc, hv, hs, Except.map]; rfl⟩

theorem apply_eq_error_iff : (r.apply s).outcome.result = .error e ↔ r.Fails s e := by
  refine ⟨fun h => ?_, Fails.apply_result⟩
  rcases r.fails_or_apply_ok s with ⟨e', hf⟩ | ⟨report, hok⟩
  · have he : Except.error e' = Except.error e := hf.apply_result.symm.trans h
    exact Except.error.inj he ▸ hf
  · rw [hok] at h
    cases h

/-- Wherever a replay fails, it has put the session back. -/
theorem replay_eq_error_iff : (r.replay s).outcome = ⟨.error e, t⟩ ↔ r.Fails s e ∧ t = s := by
  rw [← apply_eq_error_iff]
  rcases r.replay_cases s with ⟨e', he, h⟩ | ⟨report, hok, h⟩
  · rw [h, he]
    simp [eq_comm]
  · rw [h, hok]
    constructor
    · intro ho
      rw [ho] at hok
      cases hok
    · rintro ⟨he, -⟩
      cases he

/-! ## Problems met -/

theorem firstVerdicts_of_mapM {entries : List Entry} {verdicts : List Verdict}
    (h : entries.mapM (Entry.verdict s) = .ok verdicts) : firstVerdicts s entries = verdicts := by
  induction entries generalizing verdicts with
  | nil =>
    rw [List.mapM_nil] at h
    exact pure_eq_ok_iff.1 h
  | cons entry entries ih =>
    rw [List.mapM_cons] at h
    obtain ⟨verdict, hv, h⟩ := bind_eq_ok_iff.1 h
    obtain ⟨rest, hrest, h⟩ := bind_eq_ok_iff.1 h
    rw [firstVerdicts, hv, ← pure_eq_ok_iff.1 h, ← ih hrest]

/-- Once its group is chosen a replay meets the problems of all entries that it comes to, whether it
fails or not. -/
theorem met_eq (h : r.chooseGroup s = ⟨.ok (), t⟩) :
    (r.replay s).met = problems (firstVerdicts t r.picks) := by
  have happlied : (r.apply s).met = problems (firstVerdicts t r.picks) := by
    unfold apply
    rw [h]
    dsimp only
    cases hv : r.picks.mapM (Entry.verdict t) with
    | error e => rfl
    | ok verdicts => rw [firstVerdicts_of_mapM hv]
  unfold replay
  dsimp only
  split
  · exact happlied
  · exact happlied

end Record

namespace Session

/-- Toggling, selecting packs, choosing an install group, replaying a record and closing leave the
session as it was when they fail. A replay does so wherever it fails. The last four parts tell how
the operations are carried out, with each look at the session and each write. -/
theorem failed_unchanged (s : Session) :
    (∀ name on e, (s.toggle name on).result = .error e → (s.toggle name on).session = s) ∧
      (∀ names e, (s.select names).result = .error e → (s.select names).session = s) ∧
      (∀ name e, (s.selectInstallGroup name).result = .error e →
        (s.selectInstallGroup name).session = s) ∧
      (∀ (r : Record) e, (r.replay s).outcome.result = .error e →
        (r.replay s).outcome.session = s) ∧
      (∀ (r : Record) e, r.Fails s e → (r.replay s).outcome = ⟨.error e, s⟩) ∧
      (∀ rejected, s.proceed = .error rejected → rejected.session = s) ∧
      (∀ name on, s.toggle name on = (toggling name on).outcome s) ∧
      (∀ names, s.select names = (selecting names).outcome s) ∧
      (∀ name, s.selectInstallGroup name = (choosing name).outcome s) ∧
      ∀ r : Record, (r.replay s).outcome = r.replaying.outcome s := by
  refine ⟨fun name on e => (clean_toggling name on).session_eq (s.toggle_eq_outcome name on),
    fun names e => (clean_selecting names).session_eq (s.select_eq_outcome names),
    fun name e => (clean_choosing name).session_eq (s.selectInstallGroup_eq_outcome name),
    fun r e he => ?_, fun r e hf => Record.replay_eq_error_iff.2 ⟨hf, rfl⟩,
    fun rejected => session_of_proceed_eq_error, s.toggle_eq_outcome, s.select_eq_outcome,
    s.selectInstallGroup_eq_outcome, fun r => r.replay_eq_outcome s⟩
  have hout : (r.replay s).outcome = ⟨.error e, (r.replay s).outcome.session⟩ := by rw [← he]
  exact (Record.replay_eq_error_iff.1 hout).2

end Session

/-- A record that picks `paint`, with which `red` comes, and `blue`, which excludes `red`. -/
def Record.paletteClash : Record where
  installGroup := some "artist"
  entries := [{ name := some "paint", selected := true }, { name := some "blue", selected := true }]

/-- Nothing that is tried works: outside the studio `red` is not on offer, no pack is in the group
`painter`, and a validator rejects `paint`. The record fails when its group has been chosen. -/
theorem Session.palette_failed_unchanged : ∃ s t,
    Context.palette.Reachable s ∧ s.selected.toList = ["paint", "red"] ∧ s.installGroup = none ∧
      (s.toggle "red" true).session = s ∧ (s.select ["blue", "red"]).session = s ∧
      (s.selectInstallGroup "painter").session = s ∧
      Record.paletteClash.chooseGroup s = ⟨.ok (), t⟩ ∧ t.installGroup = some "artist" ∧
      (Record.paletteClash.replay s).outcome =
        ⟨.error (.exclusionViolated "colour" ["red", "blue"]), s⟩ ∧
      (Record.paletteClash.replay s).outcome.session = s ∧
      ∃ rejected, s.proceed = .error rejected ∧ rejected.session = s := by
  let check := Change.addValidator "paint" fun _ _ _ => false
  let paint := Change.toggle "paint" true
  obtain ⟨s, hs, hsel, hnone, hvars, htoggle, hselect, hresolution, hverdicts, hclash⟩ :
      ∃ s, Context.palette.Reachable s ∧ s.selected.toList = ["paint", "red"] ∧
        s.installGroup = none ∧ s.vars = ∅ ∧
        (s.toggle "red" true).result = .error (.packUnavailable "red") ∧
        (s.select ["blue", "red"]).result = .error (.packUnavailable "red") ∧
        s.resolution = .error (.packRejected "paint") ∧
        Record.paletteClash.picks.mapM (Record.Entry.verdict s.withArtist) =
          .ok [.picked "paint", .picked "blue"] ∧
        (s.withArtist.select (Record.pickedNames [.picked "paint", .picked "blue"])).result =
          .error (.exclusionViolated "colour" ["red", "blue"]) := by
    have hs : Context.palette.Reachable (paint.apply (check.apply Session.palette)) :=
      (Session.palette_reachable.changed trivial).changed trivial
    exact ⟨_, hs, by cbv, by cbv, by cbv, by cbv, by cbv, by cbv, by cbv, by cbv⟩
  have hchosen : Record.paletteClash.chooseGroup s = ⟨.ok (), _⟩ :=
    Session.selectInstallGroup_eq_ok_iff.2 (Session.palette_withInstallGroup hs hvars)
  obtain ⟨e, hother⟩ : ∃ e, s.withInstallGroup "painter" = .error e := by
    refine Session.withInstallGroup_of_not_mem_tags
      (Session.palette_availablePacks hs hvars "painter") ?_
    rw [Session.palette_tags, NameSet.mem_ofList]
    decide
  have hgroup : (s.selectInstallGroup "painter").result = .error e := by
    rw [Session.selectInstallGroup, hother]
    rfl
  have hproceed : s.proceed = .error ⟨s, .packRejected "paint"⟩ := by
    rw [Session.proceed, hresolution]
  obtain ⟨toggled, selected, grouped, replayed, stopped, closed, -⟩ := s.failed_unchanged
  have hreplay := stopped Record.paletteClash _ (.selecting hchosen hverdicts hclash)
  refine ⟨s, _, hs, hsel, hnone, toggled _ _ _ htoggle, selected _ _ hselect, grouped _ _ hgroup,
    hchosen, rfl, hreplay, ?_, _, hproceed, closed _ hproceed⟩
  exact replayed _ _ (congrArg Outcome.result hreplay)

end PackChoice
