import DolphinVC.Routers.Operations
import DolphinVC.Services.Listing
import DolphinVC.Verification.HarvestedSignals
import DolphinVC.Verification.Pagination

/-!
# Missed deadlines

The two dates of an opportunity are never written again. Whether its deadline was missed is
asked in two places: a card reports it as long as there is no decision, `usage` counts it once
there is a late one. From the moment the deadline has passed without a decision exactly one of
the two reports it, first the card and after the decision the count.
-/

namespace DolphinVC

open Relational Transaction Transition

section Dates

variable {db db' : Db} {o o' o'' : Opportunity} {decided decided' : Timestamp → Prop}

/-- The dates are kept; the decision is the same or was taken at one of the times. -/
structure Opportunity.Dated (decided : Timestamp → Prop) (o o' : Opportunity) : Prop where
  id : o'.id = o.id
  firstSignalAt : o'.firstSignalAt = o.firstSignalAt
  slaDeadlineAt : o'.slaDeadlineAt = o.slaDeadlineAt
  decidedAt : o'.decidedAt = o.decidedAt ∨ ∃ t, o'.decidedAt = some t ∧ decided t

theorem Opportunity.Dated.refl (decided : Timestamp → Prop) (o : Opportunity) : o.Dated decided o :=
  ⟨rfl, rfl, rfl, Or.inl rfl⟩

theorem Opportunity.Dated.trans (h : o.Dated decided o') (h' : o'.Dated decided' o'')
    (weaken : ∀ t, decided' t → decided t) : o.Dated decided o'' where
  id := h'.id.trans h.id
  firstSignalAt := h'.firstSignalAt.trans h.firstSignalAt
  slaDeadlineAt := h'.slaDeadlineAt.trans h.slaDeadlineAt
  decidedAt := by
    cases h'.decidedAt with
    | inl same =>
        rw [same]
        exact h.decidedAt
    | inr later =>
        obtain ⟨t, ht, htime⟩ := later
        exact Or.inr ⟨t, ht, weaken t htime⟩

theorem dated_patch {set : OpportunityPatch} (h : ∀ t, set.decidedAt = some t → decided t) :
    o.Dated decided (o.patch set) := by
  refine ⟨rfl, rfl, rfl, ?_⟩
  show (set.decidedAt.orElse fun _ => o.decidedAt) = o.decidedAt ∨ _
  cases hset : set.decidedAt with
  | none => exact Or.inl rfl
  | some t => exact Or.inr ⟨t, by simp [Opportunity.patch, hset], h t hset⟩

/-- The opportunity is there with its dates. -/
def HasDated (decided : Timestamp → Prop) (o : Opportunity) (db : Db) : Prop :=
  ∃ o' ∈ db.opportunities, o.Dated decided o'

theorem HasDated.apply {w : Write} (h : HasDated decided o db) (hw : w.Decides decided)
    (happly : db.apply w = .ok db') : HasDated decided o db' := by
  obtain ⟨r, hr, hdated⟩ := h
  obtain ⟨row, rfl, hins⟩ | ⟨id, set, rfl, hupd⟩ | ⟨-, heq⟩ := opportunities_apply happly
  · exact ⟨r, (Table.mem_insert? hins).mpr (Or.inl hr), hdated⟩
  · refine ⟨if r.id = id then r.patch set else r, ?_, ?_⟩
    · rw [hupd]
      exact Table.mem_update.mpr ⟨r, hr, rfl⟩
    · split
      · exact hdated.trans (dated_patch hw) fun _ h => h
      · exact hdated
  · exact ⟨r, heq ▸ hr, hdated⟩

theorem HasDated.atomically {α : Type} {p : DolphinVC.Tx α} (h : HasDated decided o db)
    (hp : Tx.Emits (Write.Decides decided) p) : HasDated decided o (p.atomically backend db).2 :=
  Tx.Commits.atomically (I := HasDated decided o) (Tx.Emits.commits hp Journal.all_empty)
    (fun _ _ _ hw hdb happly => hdb.apply hw happly) h

end Dates

section Steps

variable {env : Env} {s : DealState} {o : Opportunity}

/-- The time a decision made by this event would carry. -/
def DealEvent.Decides : DealEvent → Timestamp → Prop
  | .request _ d _, t => t = d.now
  | _, _ => False

/-- The write sets of job runs. -/
def RunBlock (_ : Db) (ws : List Write) : Prop := ∀ w ∈ ws, w.OfRun

theorem Write.OfRun.decides {w : Write} (h : w.OfRun) (decided : Timestamp → Prop) :
    w.Decides decided := by
  cases w with
  | updateOpportunity id set =>
      intro t ht
      rw [h.2.2.2.2] at ht
      cases ht
  | _ => trivial

theorem processJob_runBlocks (run : RunEnv) (jobId : Uuid) (db : Db) :
    (processJob run jobId).run.Blocks backend RunBlock (fun _ _ _ => True) db {} := by
  have inv : SessionInvariant backend RunBlock Write.OfRun _ :=
    SessionInvariant.ofWrites fun _ _ h => h
  exact (Tx.Emits.keeps inv processJob_emits db {} (inv.clean db [])).mono fun _ _ _ _ => trivial

/-- No event resets the dates of an opportunity; only a request decides, at its own time. -/
theorem hasDated_step (env : Env) (a : DealEvent) (hb : s.Blocks RunBlock)
    (ho : o ∈ s.db.opportunities) :
    HasDated a.Decides o (dealStep env s a).db := by
  have here : HasDated a.Decides o s.db := ⟨o, ho, .refl _ o⟩
  cases a with
  | request credentials d r =>
      exact here.atomically ((serve_writes r).weaken fun _ hw => hw.2)
  | auth r d =>
      exact here.atomically ((auth_writes r).weaken fun _ hw =>
        Write.Quiet.decides hw.target_ne.1 _)
  | reap now =>
      exact here.atomically (reapStaleJobs_queues.weaken fun _ hw => hw.quiet.decides _)
  | deliver run jobId => exact here
  | run i faults =>
      obtain heq | ⟨ws, -, hws, happly⟩ := run_cases env hb i faults
      · rw [heq]
        exact here
      · exact Backend.applyAll_inv (P := HasDated _ o)
          (fun _ _ _ hw hdb happly => hdb.apply hw happly)
          (fun w hw => (hws w hw).decides _) here happly

end Steps

section Moments

variable {env : Env} {o : Opportunity} {m : Moment}

/-- A state of the system and the time it is looked at. -/
structure Moment where
  state : DealState
  now : Timestamp

def Moment.db (m : Moment) : Db := m.state.db

/-- The event is over at the given time. -/
def momentStep (env : Env) (m : Moment) (e : Timestamp × DealEvent) : Moment :=
  ⟨dealStep env m.state e.2, e.1⟩

/-- The clock does not run backwards. -/
def Advances (m : Moment) (e : Timestamp × DealEvent) : Prop :=
  m.now ≤ e.1 ∧ ∀ t, e.2.Decides t → m.now ≤ t

/-- The deadline has passed and there is no decision. -/
structure Overdue (o : Opportunity) (m : Moment) : Prop where
  stored : o ∈ m.db.opportunities
  undecided : o.decidedAt = none
  passed : o.slaDeadlineAt < m.now

/-- Every card built of the opportunity at this moment reports the breach. -/
def OnCards (o : Opportunity) (m : Moment) : Prop :=
  ∀ card, ((buildCard o m.now).atomically backend m.db).1 = .ok card → card.sla.breached = true

/-- The breach is permanent and counted. -/
def Reported (o : Opportunity) (m : Moment) : Prop :=
  ∃ o' ∈ m.db.opportunities, o'.id = o.id ∧ o'.firstSignalAt = o.firstSignalAt ∧
    o'.slaDeadlineAt = o.slaDeadlineAt ∧ OnCards o' m ∧ countsAsBreach o' = true

/-- What the code does: the dates stand, the cards report the breach as long as there is no
decision, and it is counted when there is one. -/
def ReportedByHalf (o : Opportunity) (m : Moment) : Prop :=
  ∃ o' ∈ m.db.opportunities, o'.id = o.id ∧ o'.firstSignalAt = o.firstSignalAt ∧
    o'.slaDeadlineAt = o.slaDeadlineAt ∧
    (∀ card, ((buildCard o' m.now).atomically backend m.db).1 = .ok card →
      (card.sla.breached = true ↔ o'.decidedAt = none)) ∧
    (countsAsBreach o' = true ↔ o'.decidedAt ≠ none)

theorem breached_iff {now : Timestamp} :
    (sla o now).breached = true ↔ o.decidedAt = none ∧ o.slaDeadlineAt ≤ now := by
  simp only [sla, decide_eq_true_eq, hoursUntil_nonpos]

theorem sla_of_card {now : Timestamp} {db : Db} {card : OpportunityCard}
    (h : ((buildCard o now).atomically backend db).1 = .ok card) : card.sla = sla o now := by
  unfold buildCard at h
  rw [Tx.atomically_query_bind] at h
  cases hcompany : db.companies.find? o.companyId with
  | none =>
      rw [hcompany] at h
      cases h
  | some company =>
      rw [hcompany] at h
      cases h
      rfl

theorem countsAsBreach_iff :
    countsAsBreach o = true ↔ ∃ t, o.decidedAt = some t ∧ o.slaDeadlineAt < t := by
  unfold countsAsBreach
  cases o.decidedAt with
  | none => simp
  | some t => simp

/-- From an overdue moment on the decision, if there is one, is late. -/
def Late (o : Opportunity) (m : Moment) : Prop :=
  HasDated (fun t => o.slaDeadlineAt < t) o m.db ∧ o.slaDeadlineAt < m.now

theorem Overdue.late (h : Overdue o m) : Late o m := ⟨⟨o, h.stored, .refl _ o⟩, h.passed⟩

theorem Late.step (e : Timestamp × DealEvent) (hb : m.state.Blocks RunBlock) (h : Late o m)
    (advances : Advances m e) : Late o (momentStep env m e) := by
  obtain ⟨⟨r, hr, hdated⟩, hpassed⟩ := h
  obtain ⟨r', hr', hdated'⟩ := hasDated_step env e.2 hb hr
  refine ⟨⟨r', hr', hdated.trans hdated' fun t ht => ?_⟩, ?_⟩
  · have read : m.now ≤ t := advances.2 t ht
    exact Int.lt_of_lt_of_le hpassed read
  · have later : m.now ≤ e.1 := advances.1
    exact Int.lt_of_lt_of_le hpassed later

theorem Late.reportedByHalf (undecided : o.decidedAt = none) (h : Late o m) :
    ReportedByHalf o m := by
  obtain ⟨⟨r, hr, hdated⟩, hpassed⟩ := h
  refine ⟨r, hr, hdated.id, hdated.firstSignalAt, hdated.slaDeadlineAt, fun card hcard => ?_, ?_⟩
  · rw [sla_of_card hcard, breached_iff, hdated.slaDeadlineAt]
    exact and_iff_left (Int.le_of_lt hpassed)
  · rw [countsAsBreach_iff, hdated.slaDeadlineAt]
    cases hdated.decidedAt with
    | inl same =>
        rw [same, undecided]
        simp
    | inr decision =>
        obtain ⟨t, ht, hlate⟩ := decision
        rw [ht]
        simpa using hlate

/-- Once the deadline of an opportunity has passed without a decision, its breach is not both
permanent and counted in any run; in every run its dates stand and it is reported by one half. -/
theorem breach_reported_by_half (env : Env) (db : Db) (start : Timestamp)
    (past later : List (Timestamp × DealEvent)) (o : Opportunity)
    (overdue : Overdue o (past.foldl (momentStep env) ⟨{ db }, start⟩))
    (advancing : Meets (momentStep env) Advances
      (past.foldl (momentStep env) ⟨{ db }, start⟩) later) :
    ¬ Along (momentStep env) (Reported o) (past.foldl (momentStep env) ⟨{ db }, start⟩) later ∧
      Along (momentStep env) (ReportedByHalf o) (past.foldl (momentStep env) ⟨{ db }, start⟩)
        later := by
  have blocks : Along (momentStep env) (fun m => m.state.Blocks RunBlock) ⟨{ db }, start⟩ past :=
    along_of_step (fun _ e hb => blocks_step hb e.2 processJob_runBlocks)
      (fun _ ht => absurd ht List.not_mem_nil)
  have now := blocks.last
  generalize past.foldl (momentStep env) ⟨{ db }, start⟩ = m at overdue advancing now ⊢
  constructor
  · intro run
    -- the row that is overdue is undecided, so it is not counted
    obtain ⟨r, hr, hid, -, -, -, hcounted⟩ := run.head
    obtain rfl := Table.eq_of_key hr overdue.stored hid
    rw [countsAsBreach_iff, overdue.undecided] at hcounted
    obtain ⟨t, ht, -⟩ := hcounted
    cases ht
  · have late : Along (momentStep env) (fun m => m.state.Blocks RunBlock ∧ Late o m) m later :=
      along_of_meets (fun _ e hI hc =>
        ⟨blocks_step hI.1 e.2 processJob_runBlocks, hI.2.step e hI.1 hc⟩)
        ⟨now, overdue.late⟩ advancing
    exact late.mono fun _ h => h.2.reportedByHalf overdue.undecided

end Moments

section Skerry

/-- Carol's fund with an opportunity whose deadline is the second second. -/
def skerryDeal : Opportunity where
  id := 81
  orgId := 1
  companyId := 10
  origin := .manual
  title := some "Acme"
  firstSignalAt := Timestamp.seconds 1
  slaDeadlineAt := Timestamp.seconds 2

def skerryDb : Db := { fundDb with opportunities := ⟨[skerryDeal], by decide⟩ }

/-- Three seconds have passed and nobody has decided. -/
def skerryMoment : Moment := ⟨{ db := skerryDb }, Timestamp.seconds 3⟩

/-- Carol decides in the fourth second. -/
def lateDecision : Timestamp × DealEvent :=
  (Timestamp.seconds 5, .request (some { token := "carol" }) { now := Timestamp.seconds 4 }
    (.decide 81 { decision := .invest, rationale := "A late yes to Acme.", human := by decide
                  rationaleLength := by decide } (some "late")))

theorem skerry_overdue : Overdue skerryDeal skerryMoment :=
  ⟨List.mem_singleton_self _, rfl, by decide⟩

/-- The late decision takes the breach off the card. -/
theorem late_decision_hides_breach :
    Overdue skerryDeal skerryMoment ∧
      ¬ Along (momentStep fundEnv) (Reported skerryDeal) skerryMoment [lateDecision] := by
  refine ⟨skerry_overdue, fun run => ?_⟩
  obtain ⟨r, hr, -, -, -, hcards, -⟩ := run.last
  have rows : (momentStep fundEnv skerryMoment lateDecision).db.opportunities.rows.map
      (fun o => (o.decidedAt, o.companyId)) = [(some (Timestamp.seconds 4), 10)] := by
    decide +kernel
  have hrow : (r.decidedAt, r.companyId) ∈
      (momentStep fundEnv skerryMoment lateDecision).db.opportunities.rows.map
        fun o => (o.decidedAt, o.companyId) := List.mem_map_of_mem hr
  rw [rows, List.mem_singleton, Prod.mk.injEq] at hrow
  have stored : ((momentStep fundEnv skerryMoment lateDecision).db.companies.find? 10).isSome := by
    decide +kernel
  obtain ⟨company, hcompany⟩ := Option.isSome_iff_exists.mp stored
  have shown := hcards _ (buildCard_served (hrow.2 ▸ hcompany))
  rw [sla_of_card (buildCard_served (hrow.2 ▸ hcompany)), breached_iff, hrow.1] at shown
  cases shown.1

theorem skerry_reported_by_half :
    ¬ Along (momentStep fundEnv) (Reported skerryDeal) skerryMoment [lateDecision] ∧
      Along (momentStep fundEnv) (ReportedByHalf skerryDeal) skerryMoment [lateDecision] :=
  breach_reported_by_half fundEnv skerryDb (Timestamp.seconds 3) [] [lateDecision] skerryDeal
    skerry_overdue ⟨⟨by decide, by rintro t rfl; decide⟩, trivial⟩

end Skerry

end DolphinVC
