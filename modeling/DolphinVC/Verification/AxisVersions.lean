import DolphinVC.Services.Opportunities
import DolphinVC.Transaction.Answered
import DolphinVC.Verification.PipelineWrites

/-!
# The versions of the three axes

A run reads the latest version of each axis on its own and inserts three rows in one commit.
Every version is at most one above the latest when the commit comes, since versions only grow.
In a store where each axis has the versions up to `n`, the unique constraint leaves `n + 1`
only, for all three of them: a run that another one has overtaken between its reads is
rejected as a whole.
-/

namespace DolphinVC

open Relational Transaction Transition Transaction.Tx

section Rows

/-- The rows of one axis in the order of their insertion. -/
def axisRows (opportunityId : Uuid) (axis : AxisKind) (db : Db) : List OpportunityScore :=
  db.opportunityScores.rows.filter fun s => s.opportunityId = opportunityId ∧ s.axis = axis

/-- Each axis has exactly the versions from 1 to `n`, each once. -/
def AxesAt (opportunityId : Uuid) (n : Nat) (db : Db) : Prop :=
  ∀ axis, ((axisRows opportunityId axis db).map OpportunityScore.version).Perm (List.range' 1 n)

def Write.score? : Write → Option OpportunityScore
  | .insertOpportunityScore row => some row
  | _ => none

/-- The scores that a write set inserts. -/
def scoreInserts (ws : List Write) : List OpportunityScore := ws.filterMap Write.score?

theorem mem_scoreInserts {ws : List Write} {row : OpportunityScore} :
    row ∈ scoreInserts ws ↔ .insertOpportunityScore row ∈ ws := by
  unfold scoreInserts
  rw [List.mem_filterMap]
  constructor
  · rintro ⟨w, hw, hrow⟩
    cases w with
    | insertOpportunityScore r =>
        cases hrow
        exact hw
    | _ => cases hrow
  · exact fun h => ⟨_, h, rfl⟩

variable {o : Uuid} {axis : AxisKind} {db db' : Db} {w : Write} {ws : List Write}

theorem scoreInserts_append_score {row : OpportunityScore} :
    scoreInserts (ws ++ [.insertOpportunityScore row]) = scoreInserts ws ++ [row] := by
  simp [scoreInserts, Write.score?]

theorem Write.score?_eq_none (h : w.target ≠ .scores) : w.score? = none := by
  cases w with
  | insertOpportunityScore row => exact absurd rfl h
  | _ => rfl

theorem axisRows_apply (h : db.apply w = .ok db') :
    axisRows o axis db' = axisRows o axis db ++
      w.score?.toList.filter (fun s => s.opportunityId = o ∧ s.axis = axis) ∧
    (((axisRows o axis db).map OpportunityScore.version).Nodup →
      ((axisRows o axis db').map OpportunityScore.version).Nodup) := by
  obtain ⟨row, rfl, fresh, hins⟩ | ⟨hw, heq⟩ := opportunityScores_apply h
  · have hrows : axisRows o axis db' = axisRows o axis db ++
        [row].filter (fun s => s.opportunityId = o ∧ s.axis = axis) := by
      unfold axisRows
      rw [(Table.insert?_eq_some_iff.mp hins).2, List.filter_append]
    refine ⟨hrows, fun hnodup => ?_⟩
    rw [hrows, List.map_append]
    by_cases hrow : row.opportunityId = o ∧ row.axis = axis
    · rw [List.filter_cons_of_pos (by simpa using hrow), List.filter_nil]
      refine List.nodup_append.mpr ⟨hnodup, List.nodup_singleton _, ?_⟩
      intro v hv v' hv'
      obtain ⟨r, hr, rfl⟩ := List.mem_map.mp hv
      obtain ⟨hmem, hprops⟩ := List.mem_filter.mp hr
      obtain ⟨hopp, haxis⟩ : r.opportunityId = o ∧ r.axis = axis := by simpa using hprops
      rw [List.map_singleton, List.mem_singleton] at hv'
      rw [hv']
      exact fresh r hmem (hopp.trans hrow.1.symm) (haxis.trans hrow.2.symm)
    · rw [List.filter_cons_of_neg (by simpa using hrow), List.filter_nil]
      simpa using hnodup
  · have hrows : axisRows o axis db' = axisRows o axis db := by
      unfold axisRows
      rw [heq]
    rw [hrows, Write.score?_eq_none hw]
    simp

/-- Write sets append their rows and never repeat a version. -/
theorem axisRows_applyAll (h : backend.applyAll db ws = .ok db') :
    axisRows o axis db' = axisRows o axis db ++
      (scoreInserts ws).filter (fun s => s.opportunityId = o ∧ s.axis = axis) ∧
    (((axisRows o axis db).map OpportunityScore.version).Nodup →
      ((axisRows o axis db').map OpportunityScore.version).Nodup) := by
  induction ws generalizing db with
  | nil =>
      cases h
      simp [scoreInserts]
  | cons w ws ih =>
      obtain ⟨mid, hw, hws⟩ := Backend.applyAll_cons_eq_ok.mp h
      obtain ⟨hrows, hnodup⟩ := @axisRows_apply o axis db mid w hw
      obtain ⟨hrows', hnodup'⟩ := ih hws
      refine ⟨?_, fun h => hnodup' (hnodup h)⟩
      rw [hrows', hrows, List.append_assoc, ← List.filter_append]
      congr 2
      unfold scoreInserts
      rw [List.filterMap_cons]
      cases w.score? <;> rfl

end Rows

section Latest

variable {o : Uuid} {axis : AxisKind} {db db' : Db} {n : Nat}

theorem foldl_max_le_iff {l : List Nat} {b k : Nat} :
    l.foldl max b ≤ k ↔ b ≤ k ∧ ∀ v ∈ l, v ≤ k := by
  induction l generalizing b with
  | nil => simp
  | cons v l ih =>
      rw [List.foldl_cons, ih, List.forall_mem_cons, ← and_assoc, max_le_iff]

theorem latest_le_of_subset (h : ∀ row ∈ axisRows o axis db, row ∈ axisRows o axis db') :
    latestScoreVersion o axis db ≤ latestScoreVersion o axis db' := by
  refine foldl_max_le_iff.mpr ⟨Nat.zero_le _, fun v hv => ?_⟩
  obtain ⟨row, hrow, rfl⟩ := List.mem_map.mp hv
  exact (foldl_max_le_iff.mp (Nat.le_refl (latestScoreVersion o axis db'))).2 _
    (List.mem_map_of_mem (h row hrow))

theorem latest_mono_apply {w : Write} (h : db.apply w = .ok db') :
    latestScoreVersion o axis db ≤ latestScoreVersion o axis db' := by
  refine latest_le_of_subset fun row hrow => ?_
  rw [(axisRows_apply h).1]
  exact List.mem_append_left _ hrow

theorem AxesAt.latest_le (h : AxesAt o n db) : latestScoreVersion o axis db ≤ n := by
  refine foldl_max_le_iff.mpr ⟨Nat.zero_le n, fun v hv => ?_⟩
  have := List.mem_range'_1.mp ((h axis).mem_iff.mp hv)
  omega

end Latest

section Commit

/-- The rows are about the opportunity, with versions that come next at the latest. -/
def NextScores (o : Uuid) (db : Db) (rows : List OpportunityScore) : Prop :=
  ∀ row ∈ rows, row.opportunityId = o ∧ 1 ≤ row.version ∧
    row.version ≤ latestScoreVersion o row.axis db + 1

/-- A write set inserts no score or the next row of each axis of one opportunity. -/
def AllAxes (db : Db) (ws : List Write) : Prop :=
  scoreInserts ws = [] ∨ ∃ o,
    (scoreInserts ws).map OpportunityScore.axis = [.founder, .market, .ideaVsMarket] ∧
      NextScores o db (scoreInserts ws)

variable {o : Uuid} {n : Nat} {db db' : Db} {ws : List Write}

theorem NextScores.apply {w : Write} {rows : List OpportunityScore} (h : NextScores o db rows)
    (happly : db.apply w = .ok db') : NextScores o db' rows := by
  intro row hrow
  obtain ⟨hopp, hpos, hle⟩ := h row hrow
  have hmono := @latest_mono_apply o row.axis db db' w happly
  exact ⟨hopp, hpos, by omega⟩

/-- Exactly one of the three rows is about a given axis. -/
theorem filter_axis {rows : List OpportunityScore}
    (haxes : rows.map OpportunityScore.axis = [.founder, .market, .ideaVsMarket])
    (hopp : ∀ row ∈ rows, row.opportunityId = o) (axis : AxisKind) :
    ∃ row ∈ rows, row.axis = axis ∧
      rows.filter (fun s => s.opportunityId = o ∧ s.axis = axis) = [row] := by
  obtain ⟨f, _, rfl, hf, h⟩ := List.map_eq_cons_iff.mp haxes
  obtain ⟨m, _, rfl, hm, h⟩ := List.map_eq_cons_iff.mp h
  obtain ⟨i, _, rfl, hi, h⟩ := List.map_eq_cons_iff.mp h
  obtain rfl := List.map_eq_nil_iff.mp h
  have hof : f.opportunityId = o := hopp f (by simp)
  have hom : m.opportunityId = o := hopp m (by simp)
  have hoi : i.opportunityId = o := hopp i (by simp)
  cases axis with
  | founder => exact ⟨f, by simp, hf, by simp [hf, hm, hi, hof]⟩
  | market => exact ⟨m, by simp, hm, by simp [hf, hm, hi, hom]⟩
  | ideaVsMarket => exact ⟨i, by simp, hi, by simp [hf, hm, hi, hoi]⟩

/-- A commit leaves the axes as they are or moves all three of them on by one. -/
theorem AxesAt.commit (h : AxesAt o n db) (hws : AllAxes db ws)
    (happly : backend.applyAll db ws = .ok db') :
    (∀ axis, axisRows o axis db' = axisRows o axis db) ∨
    AxesAt o (n + 1) db' ∧ ∀ axis, ∃ row, .insertOpportunityScore row ∈ ws ∧
      row ∈ axisRows o axis db' ∧ row.version = n + 1 := by
  have untouched (hnone : ∀ row ∈ scoreInserts ws, row.opportunityId ≠ o) (axis : AxisKind) :
      axisRows o axis db' = axisRows o axis db := by
    rw [(axisRows_applyAll happly).1, List.filter_eq_nil_iff.mpr, List.append_nil]
    intro row hrow
    simp [hnone row hrow]
  obtain hnone | ⟨o', haxes, hnext⟩ := hws
  · left
    exact untouched (by simp [hnone])
  · by_cases hsame : o' = o
    · subst hsame
      right
      have one (axis : AxisKind) : ∃ row, .insertOpportunityScore row ∈ ws ∧
          axisRows o' axis db' = axisRows o' axis db ++ [row] ∧ row.version = n + 1 := by
        obtain ⟨row, hrow, haxis, hfilter⟩ :=
          filter_axis haxes (fun row hrow => (hnext row hrow).1) axis
        obtain ⟨hrows, hnodup⟩ := @axisRows_applyAll o' axis db db' ws happly
        rw [hfilter] at hrows
        obtain ⟨-, hpos, hle⟩ := hnext row hrow
        have hlatest : latestScoreVersion o' row.axis db ≤ n := h.latest_le
        have hnew := hnodup ((h axis).nodup_iff.mpr List.nodup_range')
        rw [hrows, List.map_append, List.map_singleton] at hnew
        have hout : row.version ∉ List.range' 1 n := by
          rw [← (h axis).mem_iff]
          intro hmem
          exact (List.nodup_append.mp hnew).2.2 _ hmem _ (List.mem_singleton.mpr rfl) rfl
        rw [List.mem_range'_1] at hout
        exact ⟨row, mem_scoreInserts.mp hrow, hrows, by omega⟩
      constructor
      · intro axis
        obtain ⟨row, -, hrows, hversion⟩ := one axis
        rw [hrows, List.map_append, List.map_singleton, hversion, List.range'_1_concat,
          Nat.add_comm 1 n]
        exact (h axis).append_right _
      · intro axis
        obtain ⟨row, hrow, hrows, hversion⟩ := one axis
        exact ⟨row, hrow, by rw [hrows]; simp, hversion⟩
    · left
      exact untouched fun row hrow => (hnext row hrow).1 ▸ hsame

end Commit

section View

/-- The first element that fits comes before all others that do. -/
theorem find?_of_pairwise {α : Type} {R : α → α → Prop} {p : α → Bool} {l : List α} {a b : α}
    (sorted : l.Pairwise R) (hfind : l.find? p = some a) (hb : b ∈ l) (hp : p b) :
    b = a ∨ R a b := by
  induction l with
  | nil => cases hb
  | cons x l ih =>
      obtain ⟨hx, hl⟩ := List.pairwise_cons.mp sorted
      by_cases hpx : p x
      · rw [List.find?_cons_of_pos hpx] at hfind
        cases hfind
        obtain rfl | hb := List.mem_cons.mp hb
        · exact Or.inl rfl
        · exact Or.inr (hx b hb)
      · rw [List.find?_cons_of_neg hpx] at hfind
        obtain rfl | hb := List.mem_cons.mp hb
        · exact absurd hp hpx
        · exact ih hl hfind hb

variable {o : Uuid} {n : Nat} {db : Db} {axis : AxisKind}

/-- The view shows the row of an axis that has the highest version. -/
theorem AxesAt.axes_eq {row : OpportunityScore} (h : AxesAt o n db)
    (hrow : row ∈ axisRows o axis db) (hversion : row.version = n) : axes o db axis = some row := by
  obtain ⟨hmem, hprops⟩ := List.mem_filter.mp hrow
  obtain ⟨hopp, haxis⟩ : row.opportunityId = o ∧ row.axis = axis := by simpa using hprops
  set rows := (db.opportunityScores.rows.filter fun s => s.opportunityId = o).mergeSort
    fun a b => b.version ≤ a.version with hrows
  have hin (r : OpportunityScore) : r ∈ rows ↔ r ∈ db.opportunityScores.rows ∧
      r.opportunityId = o := by
    rw [hrows, List.mem_mergeSort, List.mem_filter, decide_eq_true_eq]
  have sorted : rows.Pairwise fun a b => decide (b.version ≤ a.version) = true :=
    List.pairwise_mergeSort (by simp; omega) (by simp; omega) _
  have hfound : (rows.find? fun s => s.axis = axis).isSome := by
    rw [List.find?_isSome]
    exact ⟨row, (hin row).mpr ⟨hmem, hopp⟩, by simpa using haxis⟩
  obtain ⟨r, hr⟩ := Option.isSome_iff_exists.mp hfound
  have hraxis : r.axis = axis := by simpa using List.find?_some hr
  have hrin : r ∈ axisRows o axis db := by
    obtain ⟨hmem', hopp'⟩ := (hin r).mp (List.mem_of_find?_eq_some hr)
    exact List.mem_filter.mpr ⟨hmem', by simpa using ⟨hopp', hraxis⟩⟩
  have hle : r.version ≤ n := by
    have := List.mem_range'_1.mp ((h axis).mem_iff.mp (List.mem_map_of_mem hrin))
    omega
  show rows.find? (fun s => s.axis = axis) = some row
  rw [hr]
  rcases find?_of_pairwise sorted hr ((hin row).mpr ⟨hmem, hopp⟩) (by simpa using haxis) with
    rfl | hge
  · rfl
  · have hge : row.version ≤ r.version := by simpa using hge
    have hnodup := (h axis).nodup_iff.mpr List.nodup_range'
    exact congrArg some (List.inj_on_of_nodup_map hnodup hrin hrow (by omega))

theorem axes_eq_none (h : AxesAt o 0 db) : axes o db axis = none := by
  have hnone : axisRows o axis db = [] := by simpa using h axis
  refine List.find?_eq_none.mpr fun row hrow haxis => ?_
  rw [List.mem_mergeSort, List.mem_filter] at hrow
  exact List.filter_eq_nil_iff.mp hnone row hrow.1 (by simpa using ⟨by simpa using hrow.2,
    by simpa using haxis⟩)

end View

section Unscored

variable {run : RunEnv} {job : Job} {o : Opportunity}

/-- No score of an axis. -/
def Write.Unscored (w : Write) : Prop := (w.target matches .scores) = false

theorem Write.OfHarvest.unscored {w : Write} (h : w.OfHarvest job) : w.Unscored := by
  cases w with
  | insertOpportunityScore row => cases h
  | _ => rfl

theorem recordStep_unscored {seq : Nat} {action message : String} {progress : Rat} :
    Emits Write.Unscored (recordStep run job seq action progress message) :=
  Emits.bind (Emits.stage (by rfl)) fun _ => Emits.bind (Emits.stage (by rfl)) fun _ =>
    Emits.bind Emits.commit fun _ => Emits.pure _

theorem loadTarget_unscored : Emits Write.Unscored (loadTarget job) :=
  loadTarget_returns.emits

theorem assignStatus_unscored {a : Application} {status : ApplicationStatus} :
    Emits Write.Unscored (assignStatus a status) :=
  Emits.ite (fun _ => Emits.pure _) fun _ => Emits.stage (by rfl)

theorem beginApplication_unscored : Emits Write.Unscored (beginApplication job) := by
  unfold beginApplication
  cases job.input.applicationId with
  | none => exact Emits.pure _
  | some id =>
      refine Emits.bind (Emits.query _) fun application? => ?_
      cases application? with
      | none => exact Emits.pure _
      | some a => exact Emits.bind assignStatus_unscored fun _ => Emits.pure _

theorem ensurePrescreen_unscored {id : Uuid} : Emits Write.Unscored (ensurePrescreen id) := by
  refine Emits.bind (Emits.query _) fun prescreen? => ?_
  cases prescreen? with
  | some p => exact Emits.pure _
  | none => exact Emits.bind (Emits.stage (by rfl)) fun _ => Emits.commit

theorem ensureDeckSource_unscored : Emits Write.Unscored (ensureDeckSource run) := by
  refine Emits.bind (Emits.query _) fun source? => ?_
  cases source? with
  | some source => exact Emits.pure _
  | none =>
      exact Emits.bind (Emits.stage (by rfl)) fun _ => Emits.bind Emits.flush fun _ => Emits.pure _

theorem addPages_unscored {document : Document} {pages : List ParsedPage} :
    Emits Write.Unscored (addPages document pages) := by
  induction pages with
  | nil => exact Emits.pure _
  | cons page pages ih => exact Emits.bind (Emits.stage (by rfl)) fun _ => ih

theorem addClaims_unscored {document : Document} {items : List ExtractedClaim} {index : Nat}
    {created : List Claim} :
    Emits Write.Unscored (addClaims run document o items index created) := by
  induction items generalizing index created with
  | nil => exact Emits.pure _
  | cons item items ih =>
      exact Emits.bind (Emits.call _) fun _ => Emits.bind (Emits.stage (by rfl)) fun _ =>
        Emits.bind Emits.flush fun _ => Emits.bind (Emits.stage (by rfl)) fun _ => ih

theorem parseAndExtract_unscored {document : Document} :
    Emits Write.Unscored (parseAndExtract run document o) := by
  have pages : Emits Write.Unscored (documentPages run document) :=
    Emits.bind (Emits.query _) fun _ => Emits.ite (fun _ => Emits.pure _) fun _ =>
      Emits.bind (Emits.call _) fun _ => Emits.bind addPages_unscored fun _ =>
        Emits.bind Emits.flush fun _ => Emits.pure _
  exact Emits.bind pages fun _ => Emits.bind (Emits.query _) fun _ =>
    Emits.ite (fun _ => Emits.pure _) fun _ => Emits.bind ensureDeckSource_unscored fun _ =>
      Emits.bind (Emits.call _) fun _ => Emits.bind addClaims_unscored fun _ =>
        Emits.bind Emits.flush fun _ => Emits.pure _

theorem gatherClaims_unscored : Emits Write.Unscored (gatherClaims run job o) := by
  refine Emits.bind (Emits.query _) fun claims => ?_
  cases job.input.documentId with
  | none => exact Emits.pure _
  | some id =>
      refine Emits.bind (Emits.query _) fun document? => ?_
      cases document? with
      | none => exact Emits.pure _
      | some document =>
          exact Emits.bind parseAndExtract_unscored fun _ =>
            Emits.bind Emits.commit fun _ => Emits.pure _

theorem writeMemo_unscored {application? : Option Application} {recommendation : Recommendation}
    {sections : List MemoSection} :
    Emits Write.Unscored (writeMemo run o application? recommendation sections) := by
  refine Emits.bind (Emits.call _) fun _ => Emits.bind (Emits.query _) fun latest =>
    Emits.bind (Emits.stage (by rfl)) fun _ => Emits.bind (Emits.stage (by rfl)) fun _ => ?_
  cases application? with
  | none => exact Emits.commit
  | some a => exact Emits.bind assignStatus_unscored fun _ => Emits.commit

theorem finishAnalysis_unscored {result : JobResult} :
    Emits Write.Unscored (finishAnalysis run job result) :=
  Emits.bind (Emits.stage (by rfl)) fun _ => Emits.bind (Emits.stage (by rfl)) fun _ => Emits.commit

theorem failJob_unscored {e : Exc} : Emits Write.Unscored (failJob run job e) :=
  Emits.bind (Emits.stage (by rfl)) fun _ => Emits.commit

end Unscored

section Runs

variable {run : RunEnv} {job : Job} {o : Opportunity}

/-- Nothing that is pending is a score. -/
def Idle (_ : Db) (s : Session Write) : Prop := s.Holds fun ws => ∀ w ∈ ws, w.Unscored

/-- The program commits scores for all axes or none, and has none pending before and after. -/
abbrev Locked {α : Type} (p : DolphinVC.Tx α) : Prop :=
  Assures backend AllAxes Idle Idle p fun _ => Idle

theorem scoreInserts_of_unscored {ws : List Write} (h : ∀ w ∈ ws, w.Unscored) :
    scoreInserts ws = [] := by
  refine List.filterMap_eq_nil_iff.mpr fun w hw => Write.score?_eq_none fun ht => ?_
  have := h w hw
  simp [Write.Unscored, ht] at this

theorem locked_of_unscored {α : Type} {p : DolphinVC.Tx α} (h : Emits Write.Unscored p) :
    Locked p := Emits.assures h fun _ _ hws => Or.inl (scoreInserts_of_unscored hws)

theorem stable_idle : Stable backend Idle := stable_session _

theorem idle_of_failed (db : Db) (s : Session Write) (h : s.failed = true) : Idle db s := Or.inl h

/-- Part of the scoring: the rows for some of the axes are pending, and nothing is flushed. -/
def Scoring (opportunityId : Uuid) (done : List AxisKind) (db : Db) (s : Session Write) : Prop :=
  s.failed = true ∨ s.flushed = [] ∧ (scoreInserts s.dirty).map OpportunityScore.axis = done ∧
    NextScores opportunityId db (scoreInserts s.dirty)

theorem stable_scoring (opportunityId : Uuid) (done : List AxisKind) :
    Stable backend (Scoring opportunityId done) :=
  stable_of_write fun _ _ _ _ h happly => h.imp_right fun ⟨hflushed, haxes, hnext⟩ =>
    ⟨hflushed, haxes, hnext.apply happly⟩

theorem addScores_scoring {claims : List Claim} {axes done : List AxisKind}
    {created : List OpportunityScore} :
    Assures backend AllAxes Idle (Scoring o.id done) (addScores run o claims axes created)
      fun _ => Scoring o.id (done ++ axes) := by
  induction axes generalizing done created with
  | nil =>
      rw [List.append_nil]
      exact fun _ _ h => h
  | cons axis axes ih =>
      refine Assures.bind (K := fun read db s => Scoring o.id done db s ∧
        read.2 = latestScoreVersion o.id axis db)
          (Assures.query (stable_scoring o.id done) ?_ ?_ ?_) ?_
      · exact fun db s h hf => (h.resolve_left (by simp [hf])).1
      · exact fun db s _ hf => idle_of_failed db s hf
      · exact fun db s h _ => ⟨h, rfl⟩
      · rintro ⟨value, latest⟩
        rw [List.append_cons]
        refine Assures.bind (K := fun _ => Scoring o.id (done ++ [axis])) ?_ fun _ => ih
        rintro db s ⟨h, rfl⟩
        refine h.imp_right fun ⟨hflushed, haxes, hnext⟩ => ?_
        simp only [Session.stage, scoreInserts_append_score]
        refine ⟨hflushed, by simp [haxes], fun row hrow => ?_⟩
        obtain hrow | hrow := List.mem_append.mp hrow
        · exact hnext row hrow
        · rw [List.mem_singleton.mp hrow]
          exact ⟨rfl, by simp, Nat.le_refl _⟩

/-- The scoring step together with the commit that follows it. -/
theorem scoreAxes_locked {claims : List Claim} {f : List OpportunityScore → DolphinVC.Tx Unit}
    (hf : ∀ rows, Locked (f rows)) :
    Assures backend AllAxes Idle (fun db s => Idle db s ∧ Scoring o.id [] db s)
      (do
        let rows ← scoreAxes run o claims
        Transaction.Tx.commit
        f rows) fun _ => Idle := by
  have stable : Stable backend fun db s => s.Holds (AllAxes db) := by
    refine stable_holds fun ws db w db' h happly => h.imp_right ?_
    rintro ⟨o', haxes, hnext⟩
    exact ⟨o', haxes, hnext.apply happly⟩
  have full (db : Db) (s : Session Write)
      (h : Scoring o.id [.founder, .market, .ideaVsMarket] db s) :
      s.Holds (AllAxes db) := by
    refine h.imp_right fun ⟨hflushed, haxes, hnext⟩ => Or.inr ⟨o.id, ?_⟩
    rw [Session.pending, hflushed, List.nil_append]
    exact ⟨haxes, hnext⟩
  have scored : Assures backend AllAxes Idle (fun db s => Idle db s ∧ Scoring o.id [] db s)
      (scoreAxes run o claims) fun _ db s => s.Holds (AllAxes db) := by
    refine Assures.bind (Contract.call fun _ _ h => h.1).assures fun _ => Assures.bind
      (Assures.consequence addScores_scoring (fun _ _ h => h.2) (fun _ _ h => h) fun _ db s h =>
        full db s h) fun rows => Assures.bind (K := fun _ db s => s.Holds (AllAxes db))
        (Assures.flush stable idle_of_failed fun db s h hf => ?_)
        fun _ => fun _ _ h => h
    refine Or.inr ?_
    simpa [Session.pending] using h.resolve_left (by simp [hf])
  refine Assures.bind scored fun rows => Assures.bind (K := fun _ => Idle) ?_ fun _ => hf rows
  exact (Contract.commit stable idle_of_failed (fun db s h hf => h.resolve_left (by simp [hf]))
    fun db s db' _ _ _ => Or.inr fun w hw => by cases hw).assures

/-- `_step` leaves nothing behind. -/
theorem recordStep_clears {opportunityId : Uuid} {seq : Nat} {action message : String}
    {progress : Rat} :
    Assures backend AllAxes Idle Idle (recordStep run job seq action progress message)
      fun _ db s => Idle db s ∧ Scoring opportunityId [] db s := by
  have staged (w : Write) (hw : w.Unscored) : Locked (Transaction.Tx.stage w) :=
    locked_of_unscored (Emits.stage hw)
  refine Assures.bind (staged _ rfl) fun _ => Assures.bind (staged _ rfl) fun _ =>
    Assures.bind (K := fun _ db s => Idle db s ∧ Scoring opportunityId [] db s) ?_
      fun _ => fun _ _ h => h
  refine (Contract.commit stable_idle idle_of_failed
    (fun db s h hf => Or.inl (scoreInserts_of_unscored (h.resolve_left (by simp [hf]))))
    fun db s db' _ _ _ => ⟨Or.inr fun w hw => (by cases hw), Or.inr ⟨rfl, rfl, ?_⟩⟩).assures
  intro row hrow
  cases hrow

theorem analyse_locked {company : Company} {application? : Option Application} :
    Locked (analyse run job o company application?) := by
  refine Assures.bind (locked_of_unscored recordStep_unscored) fun job =>
    Assures.bind (locked_of_unscored ensurePrescreen_unscored) fun _ =>
      Assures.bind (locked_of_unscored gatherClaims_unscored) fun claims =>
        Assures.bind recordStep_clears fun job =>
          scoreAxes_locked fun rows => locked_of_unscored ?_
  exact Emits.bind recordStep_unscored fun _ =>
    Emits.bind (Emits.bind (Emits.query _) fun _ => Emits.bind (Emits.call _) fun _ =>
      Emits.ofExcept _) fun _ => Emits.bind (Emits.stage (by rfl)) fun _ =>
        Emits.bind (Emits.call _) fun _ => Emits.bind recordStep_unscored fun _ =>
          Emits.bind writeMemo_unscored fun _ => Emits.bind recordStep_unscored fun _ =>
            finishAnalysis_unscored

theorem processJob_locked {jobId : Uuid} : Locked (processJob run jobId) := by
  refine Assures.bind (locked_of_unscored (Emits.query _)) fun job? => ?_
  cases job? with
  | none => exact locked_of_unscored (Emits.pure _)
  | some job =>
      refine Assures.ite (fun _ => locked_of_unscored (Emits.pure _)) fun guard => ?_
      refine Assures.bind (locked_of_unscored (Emits.stage (by rfl))) fun _ =>
        Assures.bind (locked_of_unscored Emits.commit) fun _ =>
          Assures.tryCatch ?_ fun _ => locked_of_unscored failJob_unscored
      refine Assures.ite (fun _ => locked_of_unscored ?_) fun _ => ?_
      · exact Emits.bind ((processHarvest_emits rfl).weaken fun _ h => h.unscored) fun _ =>
          dispatchChildren_emits
      · refine Assures.bind (locked_of_unscored loadTarget_unscored) fun target =>
          Assures.bind (locked_of_unscored (Emits.stage (by rfl))) fun _ =>
            Assures.bind (locked_of_unscored beginApplication_unscored) fun _ =>
              Assures.bind (locked_of_unscored Emits.commit) fun _ => analyse_locked

end Runs

section Worlds

/-- Each axis has the versions 1 to `n`, and the view shows rows that one run committed at once. -/
def InLockstep (o : Uuid) (w : World) : Prop :=
  (∃ n, AxesAt o n w.db) ∧
    ((∀ axis, axes o w.db axis = none) ∨
      ∃ i, ∃ ws ∈ w.committed i, ∀ axis, ∃ row, axes o w.db axis = some row ∧
        .insertOpportunityScore row ∈ ws)

/-- What every action keeps: the latest rows have one commit for origin. -/
def LatestTogether (o : Uuid) (w : World) : Prop :=
  ∃ n, AxesAt o n w.db ∧ (n = 0 ∨ ∃ i, ∃ ws ∈ w.committed i, ∀ axis, ∃ row,
    .insertOpportunityScore row ∈ ws ∧ row ∈ axisRows o axis w.db ∧ row.version = n)

variable {o : Uuid} {w : World} {a : Act Db Write Exc Call (Except Exc Unit)}

theorem LatestTogether.inLockstep (h : LatestTogether o w) : InLockstep o w := by
  obtain ⟨n, haxes, horigin⟩ := h
  refine ⟨⟨n, haxes⟩, ?_⟩
  obtain rfl | ⟨i, ws, hws, hrows⟩ := horigin
  · exact Or.inl fun axis => axes_eq_none haxes
  · refine Or.inr ⟨i, ws, hws, fun axis => ?_⟩
    obtain ⟨row, hin, hrow, hversion⟩ := hrows axis
    exact ⟨row, haxes.axes_eq hrow hversion, hin⟩

theorem LatestTogether.act (h : LatestTogether o w)
    (locked : ∀ ws, w.writeSet a = some ws → AllAxes w.db ws) :
    LatestTogether o (w.act backend a) := by
  obtain ⟨n, haxes, horigin⟩ := h
  have older {i : Nat} {ws : List Write} (hws : ws ∈ w.committed i) :
      ws ∈ (w.act backend a).committed i :=
    (@World.committed_prefix _ _ _ _ _ backend w [a] i).subset hws
  rcases World.act_cases (B := backend) (w := w) (a := a) with
    ⟨hdb, hsame⟩ | ⟨i, ws, hw, happly, hown, -⟩
  · refine ⟨n, hdb ▸ haxes, horigin.imp_right ?_⟩
    rintro ⟨i, ws, hws, hrows⟩
    exact ⟨i, ws, older hws, hdb ▸ hrows⟩
  · obtain hrows | ⟨hnext, hnew⟩ := haxes.commit (locked ws hw) happly
    · have haxes' : AxesAt o n (w.act backend a).db := fun axis => hrows axis ▸ haxes axis
      refine ⟨n, haxes', horigin.imp_right ?_⟩
      rintro ⟨j, vs, hvs, hold⟩
      refine ⟨j, vs, older hvs, fun axis => ?_⟩
      rw [hrows axis]
      exact hold axis
    · exact ⟨n + 1, hnext, Or.inr ⟨i, ws, by rw [hown]; simp, hnew⟩⟩

/-- The three axes move together, whatever the schedule. -/
theorem axes_move_together (o : Uuid) (db : Db)
    (unscored : ∀ s ∈ db.opportunityScores, s.opportunityId ≠ o)
    (schedule : List (Act Db Write Exc Call (Except Exc Unit)))
    (runs : ∀ p, .spawn p ∈ schedule → ∃ run jobId, p = (processJob run jobId).run)
    (answered : Meets (World.act backend) World.Answered { db } schedule) :
    Along (World.act backend) (InLockstep o) { db } schedule := by
  let Ends (r : Except Exc Unit) (db : Db) (s : Session Write) : Prop := match r with
    | .ok _ => Idle db s
    | .error _ => Idle db s
  have stable (r : Except Exc Unit) : Stable backend (Ends r) := by
    cases r with
    | ok u => exact stable_idle
    | error e => exact stable_idle
  have start : LatestTogether o { db } := by
    refine ⟨0, fun axis => ?_, Or.inl rfl⟩
    have hnone : axisRows o axis db = [] :=
      List.filter_eq_nil_iff.mpr fun s hs => by simp [unscored s hs]
    simp [hnone]
  have spawned := @meets_of_mem _ _ (World.act backend) { db } schedule
    (fun a => ∀ p, a = .spawn p → ∃ run jobId, p = (processJob run jobId).run)
    fun a ha p hp => runs p (hp ▸ ha)
  refine (along_of_meets (P := fun w : World => LatestTogether o w ∧
    w.Assured backend AllAxes Ends) ?_ ⟨start, fun t ht => by cases ht⟩
    (answered.and spawned)).mono fun w h => h.1.inLockstep
  rintro w a ⟨htogether, hassured⟩ ⟨hanswered, hspawn⟩
  refine ⟨htogether.act fun ws hws => hassured.writeSet hws, hassured.act stable hanswered ?_⟩
  rintro p rfl
  obtain ⟨run, jobId, rfl⟩ := hspawn p rfl
  refine (@processJob_locked run jobId w.db {} (Or.inr fun v hv => ?_)).mono
    fun r db s h => ?_
  · cases hv
  · cases r with
    | ok u => exact h
    | error e => exact h

end Worlds

section Example

def deltaJob (id : Uuid) : Job where
  id
  orgId := some 1
  kind := "screen"
  targetType := some "opportunity"
  targetId := some 3
  createdAt := 0

/-- Two screenings of one opportunity are queued. -/
def deltaDb : Db where
  companies := ⟨[{ id := 2, name := "Delta", normalizedName := "delta" }], by decide⟩
  opportunities := ⟨[
    { id := 3, orgId := 1, companyId := 2, origin := .inbound, title := none, firstSignalAt := 0
      slaDeadlineAt := 0 }], by decide⟩
  jobs := ⟨[deltaJob 6, deltaJob 7], by decide⟩

def deltaIds (jobId : Uuid) : Draw → Uuid
  | .score .founder => 10 * jobId
  | .score .market => 10 * jobId + 1
  | .score .ideaVsMarket => 10 * jobId + 2
  | _ => 10 * jobId + 3

def deltaRun (jobId : Uuid) : RunEnv where
  env := plainEnv
  analysis :=
    { parseDeck := fun _ => []
      extractClaims := fun _ => []
      scoreAxis := fun _ _ _ _ => ⟨0, 0, ""⟩
      thesisFit := fun _ _ => .ok (0, none)
      recommend := fun _ _ _ _ => ⟨.needsHuman, ""⟩ }
  now := fun _ => 0
  id := deltaIds jobId
  enabled := fun _ => false
  harvested := fun _ => []

/-- The two runs take turns. -/
def deltaSchedule : List (Act Db Write Exc Call (Except Exc Unit)) :=
  [.spawn (processJob (deltaRun 6) 6).run, .spawn (processJob (deltaRun 7) 7).run] ++
    (List.replicate 40 [.step 0 none, .step 1 none]).flatten

theorem delta_axes_move_together :
    Along (World.act backend) (InLockstep 3) { db := deltaDb } deltaSchedule ∧
      (deltaSchedule.foldl (World.act backend) { db := deltaDb }).db.opportunityScores.rows.length
        = 3 := by
  refine ⟨axes_move_together 3 deltaDb (by decide) deltaSchedule ?_ ?_, by decide +kernel⟩
  · intro p hp
    obtain hp | hp := List.mem_append.mp hp
    · simp only [List.mem_cons, Act.spawn.injEq, List.not_mem_nil, or_false] at hp
      obtain rfl | rfl := hp
      · exact ⟨_, _, rfl⟩
      · exact ⟨_, _, rfl⟩
    · simp at hp
  · refine (@meets_of_mem _ _ (World.act backend) { db := deltaDb } deltaSchedule
      (fun a => ∀ i e, a ≠ .step i (some e)) fun a ha i e => ?_).mono
      fun w a ha i e t k hstep => absurd hstep (ha i e)
    rintro rfl
    simp [deltaSchedule] at ha

end Example

end DolphinVC
