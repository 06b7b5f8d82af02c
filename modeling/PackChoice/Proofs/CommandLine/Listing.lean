import PackChoice.Proofs.CommandLine.Steps
import PackChoice.Proofs.Json.Written
import PackChoice.Proofs.Session.Candidates

/-!
What a run with the list option shows: the list of the candidates of the session that it prepares,
and nothing else (`AsksForList.run_of_prepares`). The list holds no pack twice and only candidates
that are not hidden, but not all of them: besides those without a parent it holds the ones directly
below these and nothing deeper (`mem_listing_iff`). So a visible candidate is left out when its
parent is hidden, is not on offer or stands below another pack itself, as a chapter of a manual does
(`shelf`).
-/

namespace PackChoice.CommandLine

variable {a : Arguments} {path : String} {dir : Directory} {s : Session} {t t' : Transcript}
  {notices : List Notice} {p q : Pack}

/-! ## The packs of the list -/

/-- A candidate that is not hidden. -/
def IsVisible (s : Session) (p : Pack) : Prop := p ∈ s.candidates ∧ p.hidden = false

/-- A visible candidate that has no parent or stands directly below a visible one without. -/
def IsShown (s : Session) (p : Pack) : Prop :=
  IsVisible s p ∧ ∀ name, p.parent = some name →
    ∃ q, IsVisible s q ∧ q.parent = none ∧ q.name = name

/-- The visible candidates without a parent. -/
def tops (s : Session) : List Pack := (visiblePacks s.candidates).filter (·.parent == none)

/-- The visible candidates directly below a pack. -/
def below (s : Session) (p : Pack) : List Pack :=
  (visiblePacks (s.context.catalog.children p.name)).filter fun child => s.isCandidate child.name

theorem map_pack_listing (s : Session) :
    (listing s).map Listed.pack = (tops s).flatMap fun p => p :: below s p := by
  unfold listing tops below
  rw [List.map_flatMap]
  simp only [List.map_cons, List.map_map, Function.comp_def, List.map_id']

theorem mem_tops : p ∈ tops s ↔ IsVisible s p ∧ p.parent = none := by
  simp only [tops, visiblePacks, IsVisible, List.mem_filter, Bool.not_eq_true',
    beq_iff_eq]

theorem mem_below (hc : ∀ r ∈ s.candidates, r ∈ s.context.catalog.packs) :
    q ∈ below s p ↔ IsVisible s q ∧ q.parent = some p.name := by
  have hcandidate : ∀ r ∈ s.context.catalog.packs,
      s.isCandidate r.name = true ↔ r ∈ s.candidates := by
    intro r hr
    rw [Session.isCandidate_iff, Catalog.name_mem_names_iff hc hr]
  simp only [below, visiblePacks, IsVisible, Catalog.children, List.mem_filter, decide_eq_true_eq,
    Bool.not_eq_true']
  constructor
  · rintro ⟨⟨⟨hq, hparent⟩, hvisible⟩, hin⟩
    exact ⟨⟨(hcandidate q hq).1 hin, hvisible⟩, hparent⟩
  · rintro ⟨⟨hin, hvisible⟩, hparent⟩
    exact ⟨⟨⟨hc q hin, hparent⟩, hvisible⟩, (hcandidate q (hc q hin)).2 hin⟩

theorem mem_listing_iff (hc : ∀ r ∈ s.candidates, r ∈ s.context.catalog.packs) :
    p ∈ (listing s).map Listed.pack ↔ IsShown s p := by
  rw [map_pack_listing, List.mem_flatMap]
  constructor
  · rintro ⟨q, hq, hp⟩
    obtain ⟨hvisible, htop⟩ := mem_tops.1 hq
    rcases List.mem_cons.1 hp with rfl | hp
    · refine ⟨hvisible, fun name hname => ?_⟩
      rw [htop] at hname
      cases hname
    · obtain ⟨hpv, hparent⟩ := (mem_below hc).1 hp
      refine ⟨hpv, fun name hname => ⟨q, hvisible, htop, ?_⟩⟩
      rw [hparent] at hname
      exact Option.some.inj hname
  · rintro ⟨hvisible, hparent⟩
    cases hp : p.parent with
    | none => exact ⟨p, mem_tops.2 ⟨hvisible, hp⟩, List.mem_cons_self⟩
    | some name =>
      obtain ⟨q, hqv, htop, rfl⟩ := hparent name hp
      exact ⟨q, mem_tops.2 ⟨hqv, htop⟩, List.mem_cons_of_mem _ ((mem_below hc).2 ⟨hvisible, hp⟩)⟩

/-- The packs that the list shows with a top one are itself and packs that tell its name. -/
theorem eq_or_parent_of_mem (hc : ∀ r ∈ s.candidates, r ∈ s.context.catalog.packs)
    (hp : p ∈ tops s) (hq : q ∈ p :: below s p) :
    q.parent = none ∧ q = p ∨ q.parent = some p.name := by
  rcases List.mem_cons.1 hq with rfl | hq
  · exact .inl ⟨(mem_tops.1 hp).2, rfl⟩
  · exact .inr ((mem_below hc).1 hq).2

theorem nodup_listing (hc : s.candidates.Sublist s.context.catalog.packs) :
    ((listing s).map Listed.pack).Nodup := by
  have hknown : ∀ r ∈ s.candidates, r ∈ s.context.catalog.packs := fun r hr => hc.subset hr
  have hpacks := s.context.catalog.packs_nodup
  have htops : (tops s).Sublist s.context.catalog.packs :=
    (List.filter_sublist.trans List.filter_sublist).trans hc
  rw [map_pack_listing, List.nodup_flatMap]
  constructor
  · intro p hp
    have hbelow : (below s p).Sublist s.context.catalog.packs :=
      (List.filter_sublist.trans List.filter_sublist).trans List.filter_sublist
    refine List.nodup_cons.2 ⟨fun hself => ?_, hbelow.nodup hpacks⟩
    have hparent := ((mem_below hknown).1 hself).2
    rw [(mem_tops.1 hp).2] at hparent
    cases hparent
  · refine (htops.nodup hpacks).pairwise_of_forall_ne fun p hp q hq hne r hrp hrq => hne ?_
    rcases eq_or_parent_of_mem hknown hp hrp with ⟨htop, rfl⟩ | hparent <;>
      rcases eq_or_parent_of_mem hknown hq hrq with ⟨htop', hrq⟩ | hparent'
    · exact hrq
    · rw [htop] at hparent'
      cases hparent'
    · rw [hparent] at htop'
      cases htop'
    · rw [hparent] at hparent'
      exact Catalog.name_inj (htops.subset hp) (htops.subset hq) (Option.some.inj hparent')

/-- The text of the list of candidates. -/
def listText (s : Session) : String := String.join ((listing s).map (Listed.line s))

/-- With the list option a run ends when the candidates have been listed. -/
theorem gives_install_iff (hlist : a.has .list = true) {requested : List String} {u : Unit} :
    Gives (install a path requested dir) t u t' ↔ ∃ s notices, Prepares a path dir s notices ∧
      { t with output := t.output ++ listText s, notices := t.notices ++ notices } = t' := by
  unfold install Prepares
  simp only [gives_bind_iff, gives_openSession_iff, gives_chooseGroup_iff, hlist, if_true,
    gives_print_iff]
  constructor
  · rintro ⟨opened, _, ⟨hopen, rfl⟩, s, _, ⟨notices, hchoose, rfl⟩, rfl⟩
    exact ⟨s, notices, ⟨opened, hopen, hchoose⟩, rfl⟩
  · rintro ⟨s, notices, ⟨opened, hopen, hchoose⟩, rfl⟩
    exact ⟨opened, _, ⟨hopen, rfl⟩, s, _, ⟨notices, hchoose, rfl⟩, rfl⟩

/-! ## Runs with the list option -/

/-- The arguments ask for the list of the candidates of the definition at a path. -/
structure AsksForList (args : List String) (a : Arguments) (path : String) : Prop where
  parsed : Arguments.parse args = .ok a
  no_help : a.has .help = false
  definition : a.free.head? = some path
  list : a.has .list = true

namespace AsksForList

variable {args : List String}

theorem run_eq (h : AsksForList args a path) (dir : Directory) :
    ∃ requested, run args dir = match outcome (install a path requested dir) {} with
      | (.ok (), t) => t
      | (.error e, t) => { t with notices := t.notices ++ [.error e.message], exitCode := 1 } := by
  obtain ⟨requested, hfree⟩ := List.head?_eq_some_iff.1 h.definition
  refine ⟨requested, ?_⟩
  unfold run
  rw [h.parsed]
  dsimp only
  rw [h.no_help, hfree]
  rfl

/-- A run that is asked for the list shows the list of the session that it prepares. -/
theorem run_of_prepares (h : AsksForList args a path) (hs : Prepares a path dir s notices) :
    run args dir = { output := listText s, notices } := by
  obtain ⟨requested, hrun⟩ := h.run_eq dir
  have hgives : Gives (install a path requested dir) {} () { output := listText s, notices } :=
    (gives_install_iff h.list).2 ⟨s, notices, hs, by simp⟩
  rw [hrun, hgives]

theorem exists_prepares (h : AsksForList args a path) (hok : (run args dir).exitCode = 0) :
    ∃ s notices, Prepares a path dir s notices := by
  obtain ⟨requested, hrun⟩ := h.run_eq dir
  rw [hrun] at hok
  rcases hout : outcome (install a path requested dir) {} with ⟨e | u, t⟩
  · rw [hout] at hok
    cases hok
  · obtain ⟨s, notices, hs, -⟩ := (gives_install_iff h.list).1 hout
    exact ⟨s, notices, hs⟩

end AsksForList

/-- The session of a run is one of a context made from a definition. -/
theorem Prepares.reachable (h : Prepares a path dir s notices) :
    ∃ definition options context, Context.ofDefinition definition options = .ok context ∧
      context.Reachable s := by
  obtain ⟨opened, ⟨_, _, _, hcontext, _, _, hopen⟩, hchoose⟩ := h
  refine ⟨_, _, _, hcontext, ?_⟩
  have hopened : Context.Reachable _ opened := .opened hopen
  cases hchoose with
  | whole _ _ => exact hopened
  | group _ _ _ hgroup => exact hopened.withInstallGroup trivial hgroup

/-- A run that is asked for the list and succeeds shows each pack once that it shows at all, and
these are the visible candidates without a parent and those directly below one. So it shows all
visible candidates just where none of them has a parent that is hidden, is no candidate or has a
parent itself. -/
theorem run_list_shows {args : List String} (h : AsksForList args a path) (dir : Directory)
    (hok : (run args dir).exitCode = 0) :
    ∃ s notices, Prepares a path dir s notices ∧
      run args dir = { output := listText s, notices } ∧
      ((listing s).map Listed.pack).Nodup ∧
      (∀ p, p ∈ (listing s).map Listed.pack ↔ IsShown s p) ∧
      ((∀ p, IsVisible s p → p ∈ (listing s).map Listed.pack) ↔
        ∀ p name, IsVisible s p → p.parent = some name →
          ∃ q, IsVisible s q ∧ q.parent = none ∧ q.name = name) := by
  obtain ⟨s, notices, hs⟩ := h.exists_prepares hok
  obtain ⟨_, _, _, -, hreach⟩ := hs.reachable
  obtain ⟨vars, hsupplied⟩ := hreach.supplied
  have hmem : ∀ p, p ∈ (listing s).map Listed.pack ↔ IsShown s p :=
    fun _ => mem_listing_iff hreach.known
  refine ⟨s, notices, hs, h.run_of_prepares hs, nodup_listing hsupplied.sublist, hmem, ?_⟩
  constructor
  · exact fun hall p name hp hparent => ((hmem p).1 (hall p hp)).2 name hparent
  · exact fun hall p hp => (hmem p).2 ⟨hp, fun name hparent => hall p name hp hparent⟩

/-! ## A chapter in a manual among documents -/

/-- The text of a definition in which one pack stands below another one, and that below a third. -/
def shelfText : String :=
  "\x7b\"packs\": [\x7b\"name\": \"docs\"\x7d, " ++
    "\x7b\"name\": \"manual\", \"parent\": \"docs\"\x7d, " ++
    "\x7b\"name\": \"chapter\", \"parent\": \"manual\"\x7d]\x7d"

def shelfJson : Json :=
  .object
    [("packs", .array
      [.object [("name", .string "docs")],
        .object [("name", .string "manual"), ("parent", .string "docs")],
        .object [("name", .string "chapter"), ("parent", .string "manual")]])]

def shelf : Definition where
  packs := [{ name := "docs" }, { name := "manual", parent := some "docs" },
    { name := "chapter", parent := some "manual" }]

theorem shelfText_tokens : Json.tokens shelfText.toList =
    [.openObject, .spelled "packs", .colon, .openArray, .openObject, .spelled "name", .colon,
      .spelled "docs", .closeObject, .comma, .openObject, .spelled "name", .colon,
      .spelled "manual", .comma, .spelled "parent", .colon, .spelled "docs", .closeObject, .comma,
      .openObject, .spelled "name", .colon, .spelled "chapter", .comma, .spelled "parent", .colon,
      .spelled "manual", .closeObject, .closeArray, .closeObject] := by
  cbv

theorem ofText_shelfText : Definition.ofText false shelfText = .ok shelf := by
  have hv : Json.ofText? shelfText = some shelfJson := by
    rw [Json.ofText?, Json.read?_eq_some_iff, shelfText_tokens]
    simp [Json.Denotes, Json.maxDepth, Json.readValue, Json.readItems, Json.readMembers,
      Json.Token.spelled, Json.StringPart.value?, Json.StringPart.chars?, shelfJson, Json.ofMembers,
      Sorted.ofList, Sorted.insert, Text.precedes, Text.charsPrecede]
  rw [Definition.ofText, Document.parse, hv]
  rfl

theorem shelf_loads : (Context.ofDefinition shelf {}).toOption.isSome = true := by cbv

/-- What is known about the installer of `shelf`. -/
def shelfContext : Context := (Context.ofDefinition shelf {}).toOption.get shelf_loads

theorem ofDefinition_shelf : Context.ofDefinition shelf {} = .ok shelfContext :=
  eq_ok_get shelf_loads

/-- A session of the installer of `shelf` in which nothing has been done. -/
def shelfSession : Session where
  context := shelfContext
  options := shelfContext.options.applyVariables ∅
  vars := ∅
  candidates := shelf.packs
  installGroup := none
  selected := .ofList ["docs", "manual", "chapter"]
  validators := []

theorem shelf_packs : shelfContext.catalog.packs = shelf.packs :=
  (Context.ofDefinition_eq_ok ofDefinition_shelf).2

/-- No pack of the shelf has a condition, so all are on offer. -/
theorem shelf_availablePacks : shelfContext.availablePacks ∅ = .ok shelf.packs := by
  have hloaded := (Context.ofDefinition_eq_ok ofDefinition_shelf).1
  have hcondition : ∀ p ∈ shelf.packs, p.condition = none := by decide
  unfold Context.availablePacks
  rw [shelf_packs, sift_eq_filter (q := fun _ => true) fun p hp => ?_, List.filter_true]
  exact (hloaded.offers_eq_true_iff ∅ (shelf_packs ▸ hp)).2 (.inr (.inl (hcondition p hp)))

theorem shelf_opens : shelfContext.openSession ∅ = .ok shelfSession := by
  unfold Context.openSession
  rw [shelf_availablePacks]
  rfl

theorem shelf_installGroups : shelfSession.installGroups = .ok ∅ :=
  Session.installGroups_eq_ok_iff.2 ⟨shelf.packs, shelf_availablePacks, rfl⟩

/-- The list goes no deeper than to the manual. -/
theorem shelf_listing : listing shelfSession =
    [⟨{ name := "docs" }, false⟩, ⟨{ name := "manual", parent := some "docs" }, true⟩] := by
  have hcandidates : shelfSession.candidates = shelf.packs := rfl
  have hpacks : shelfSession.context.catalog.packs = shelf.packs := shelf_packs
  unfold listing Catalog.children Session.isCandidate
  rw [hcandidates, hpacks]
  cbv

theorem shelf_listText : listText shelfSession = "[x] docs - \n\t[x] manual - \n" := by
  have hmem : ∀ name ∈ ["docs", "manual"], name ∈ ["docs", "manual", "chapter"] := by decide
  have hselected : ∀ name ∈ ["docs", "manual"], shelfSession.selected.contains name = true :=
    fun name hname => NameSet.contains_eq_true.2 (NameSet.mem_ofList.2 (hmem name hname))
  unfold listText Listed.line
  rw [shelf_listing]
  simp only [List.map_cons, List.map_nil]
  rw [hselected _ (by decide), hselected _ (by decide)]
  rfl

/-- A directory in which every file holds `shelfText`. -/
def shelfDirectory : Directory where
  read _ := .ok shelfText
  refusal? _ := none

def shelfArguments : Arguments where
  given := [⟨.list, none⟩]
  free := ["shelf.json"]

theorem shelf_asksForList : AsksForList ["--list", "shelf.json"] shelfArguments "shelf.json" where
  parsed := by cbv
  no_help := by decide
  definition := rfl
  list := by decide

theorem shelf_prepares : Prepares shelfArguments "shelf.json" shelfDirectory shelfSession [] := by
  have hvars : shelfContext.vars.assignAll (shelfArguments.values .define) = .ok ∅ := by cbv
  have hunmet : shelfContext.rules.unmetRequirements ∅ = .ok [] := by cbv
  have hopens : Opens shelfArguments "shelf.json" shelfDirectory shelfSession :=
    .intro rfl rfl ofText_shelfText ofDefinition_shelf hvars hunmet shelf_opens
  have hdefault : InstallGroups.default? ∅ ∅ = none := by cbv
  exact ⟨shelfSession, hopens, .whole shelf_installGroups hdefault⟩

theorem shelf_run : run ["--list", "shelf.json"] shelfDirectory =
    { output := "[x] docs - \n\t[x] manual - \n" } := by
  rw [shelf_asksForList.run_of_prepares shelf_prepares, shelf_listText]

theorem shelf_run_list_shows :
    AsksForList ["--list", "shelf.json"] shelfArguments "shelf.json" ∧
      (run ["--list", "shelf.json"] shelfDirectory).exitCode = 0 ∧
      ∃ s notices, Prepares shelfArguments "shelf.json" shelfDirectory s notices ∧
        ((listing s).map Listed.pack).Nodup ∧
        ∀ p, p ∈ (listing s).map Listed.pack ↔ IsShown s p := by
  have hok : (run ["--list", "shelf.json"] shelfDirectory).exitCode = 0 := by rw [shelf_run]
  obtain ⟨s, notices, hs, -, hnodup, hmem, -⟩ :=
    run_list_shows shelf_asksForList shelfDirectory hok
  exact ⟨shelf_asksForList, hok, s, notices, hs, hnodup, hmem⟩

/-- The chapter is a visible candidate, and the list leaves it out. -/
theorem shelf_list_leaves_out :
    AsksForList ["--list", "shelf.json"] shelfArguments "shelf.json" ∧
      Prepares shelfArguments "shelf.json" shelfDirectory shelfSession [] ∧
      run ["--list", "shelf.json"] shelfDirectory =
        { output := "[x] docs - \n\t[x] manual - \n" } ∧
      ∃ p, IsVisible shelfSession p ∧ p.name = "chapter" ∧
        p ∉ (listing shelfSession).map Listed.pack := by
  have hvisible : IsVisible shelfSession { name := "chapter", parent := some "manual" } :=
    ⟨by decide, rfl⟩
  refine ⟨shelf_asksForList, shelf_prepares, shelf_run, _, hvisible, rfl, ?_⟩
  rw [shelf_listing]
  decide

end PackChoice.CommandLine
