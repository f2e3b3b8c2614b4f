import Mathlib
import DolphinVC.Verification.SignalCounts
import DolphinVC.Verification.HarvestedSignals
import DolphinVC.Transition.Run

/-!
# Independent sources

Histories of harvests and recomputations, each with whatever faults. What counts as a source of
a person is a signal: the counters follow the signals exactly, and both they and the stored
scores keep to the source rows where each signal of the person has a source row of its own.
-/

namespace DolphinVC

open Relational Transaction Transition

section Bound

variable {m : ScoreMaths Rat} {db : Db} {personId : Uuid} {now : Timestamp} {p : Person}

/-- The source rows behind a person and the events without a signal. -/
def sourceBound (personId : Uuid) (db : Db) : Nat :=
  (sourcesOf personId db).card + (unsignedEvents personId db).length

/-- No two signals of the person share a source row. -/
def OnePerSource (personId : Uuid) (db : Db) : Prop :=
  ((signalsOf personId db).map Signal.sourceId).Nodup

/-- The counter of the person and the sources of every stored score keep to the bound. -/
structure SourceBounded (m : ScoreMaths Rat) (p : Person) (db : Db) : Prop where
  counter : p.sourceCount ≤ sourceBound p.id db
  scores : ∀ row ∈ db.founderScores, row.personId = p.id →
    ∃ (es : List FounderScoreEvent) (now : Timestamp),
      (∀ e ∈ es, e ∈ db.founderScoreEvents ∧ e.personId = p.id) ∧
      row.confidence = (resultOf m es now).confidence ∧
      row.coldStart = (resultOf m es now).coldStart ∧
      (independentSources (tally m (es.map FounderScoreEvent.scored) now)).card ≤
        sourceBound p.id db

theorem card_sourcesOf (h : OnePerSource personId db) :
    (sourcesOf personId db).card = (signalsOf personId db).length := by
  rw [sourcesOf, List.toFinset_card_of_nodup h, List.length_map]

theorem onePerSource_of_le (h : (signalsOf personId db).length ≤ (sourcesOf personId db).card) :
    OnePerSource personId db := by
  rw [sourcesOf, List.card_toFinset, ← List.length_map (f := Signal.sourceId)] at h
  have hdedup := (List.dedup_sublist _).eq_of_length_le h
  rw [OnePerSource, ← hdedup]
  exact List.nodup_dedup _

/-- The keys of events are ids of signals or of the events themselves. -/
theorem card_independentSources_le (h : Counted m none db) {es : List FounderScoreEvent}
    (hes : ∀ e ∈ es, e ∈ db.founderScoreEvents ∧ e.personId = personId) :
    (independentSources (tally m (es.map FounderScoreEvent.scored) now)).card ≤
      (signalsOf personId db).length + (unsignedEvents personId db).length := by
  let signed := (signalsOf personId db).map fun s => toString s.id
  let unsigned := (unsignedEvents personId db).map fun e => "event:" ++ toString e.id
  have hsub : independentSources (tally m (es.map FounderScoreEvent.scored) now) ⊆
      signed.toFinset ∪ unsigned.toFinset := by
    intro key hkey
    obtain ⟨c, hc⟩ := mem_independentSources.mp hkey
    obtain ⟨scored, hscored, rfl⟩ := List.mem_map.mp (List.mem_toFinset.mp hc)
    obtain ⟨e, he, rfl⟩ := List.mem_map.mp (List.mem_filter.mp hscored).1
    obtain ⟨hstored, hperson⟩ := hes e he
    rw [Finset.mem_union, List.mem_toFinset, List.mem_toFinset]
    cases hsignal : e.signalId with
    | none =>
        refine Or.inr (List.mem_map.mpr ⟨e, List.mem_filter.mpr ⟨hstored, ?_⟩, ?_⟩)
        · simp [hperson, hsignal]
        · simp [FounderScoreEvent.scored, hsignal]
    | some id =>
        obtain ⟨s, hs, hid, hlinked⟩ := h.events e hstored id hsignal
        refine Or.inl (List.mem_map.mpr ⟨s, List.mem_filter.mpr ⟨Table.mem_rows.mpr hs, ?_⟩, ?_⟩)
        · simp [hlinked, hperson]
        · simp [FounderScoreEvent.scored, hsignal, hid]
  calc (independentSources (tally m (es.map FounderScoreEvent.scored) now)).card
      ≤ (signed.toFinset ∪ unsigned.toFinset).card := Finset.card_le_card hsub
    _ ≤ signed.toFinset.card + unsigned.toFinset.card := Finset.card_union_le _ _
    _ ≤ signed.length + unsigned.length :=
        Nat.add_le_add (List.toFinset_card_le _) (List.toFinset_card_le _)
    _ = _ := by rw [List.length_map, List.length_map]

theorem Counted.signalCount (h : Counted m none db) (hp : p ∈ db.persons) :
    p.signalCount = (signalsOf p.id db).length := by
  simpa using (h.counts p hp).1

theorem Counted.bounded (h : Counted m none db) (hp : p ∈ db.persons)
    (one : OnePerSource p.id db) : SourceBounded m p db := by
  have hcard := card_sourcesOf one
  refine ⟨?_, fun row hrow hperson => ?_⟩
  · have hcount := h.signalCount hp
    have hsource := (h.counts p hp).2
    rw [sourceBound]
    omega
  · obtain ⟨es, now, hes, hconfidence, hcold⟩ := h.scores row hrow
    rw [hperson] at hes
    refine ⟨es, now, hes, hconfidence, hcold, ?_⟩
    rw [sourceBound, hcard]
    exact card_independentSources_le h hes

/-- Beyond one signal of a source only events without a signal can make up for it. -/
theorem SourceBounded.onePerSource (h : SourceBounded m p db) (counted : Counted m none db)
    (hp : p ∈ db.persons) (signed : unsignedEvents p.id db = []) : OnePerSource p.id db := by
  refine onePerSource_of_le ?_
  have hcount := counted.signalCount hp
  have hsource := (counted.counts p hp).2
  have hbound := h.counter
  rw [sourceBound, signed, List.length_nil] at hbound
  omega

end Bound

section History

open Tx

variable {env : Env} {db : Db}

/-- A run of a harvest job, or a recomputation, and what fails in it. -/
inductive SourcingEvent where
  | harvest (run : RunEnv) (job : Job) (faults : List (Option Exc))
  | recompute (personId : Uuid) (now : Timestamp) (faults : List (Option Exc))

def sourcingStep (env : Env) (db : Db) : SourcingEvent → Db
  | .harvest run job faults =>
      ((startJob { run with env } { job with kind := "ingest.harvest" }).run.exec backend faults
        db {}).db
  | .recompute personId now faults =>
      ((recomputation env personId now).run.exec backend faults db {}).db

theorem counted_invariant (m : ScoreMaths Rat) :
    SessionInvariant backend (backend.Preserved (Counted m none)) Write.Uncounted
      fun db s => s.Foresees backend (Counted m none) (Counted m none) db :=
  preserved_invariant fun _ _ _ hw h happly => h.apply rfl hw happly

theorem uncounted_of_around (w : Write) (h : w.Around) : w.Uncounted := by
  cases w with
  | _ => first | exact h.elim | trivial

theorem counted_step (a : SourcingEvent) (h : Counted env.maths none db) :
    Counted env.maths none (sourcingStep env db a) := by
  have inv := counted_invariant env.maths
  have keep (db : Db) (ws : List Write) (db' : Db)
      (hp : backend.Preserved (Counted env.maths none) db ws) (hI : Counted env.maths none db)
      (happly : backend.applyAll db ws = .ok db') : Counted env.maths none db' := hp db' happly hI
  cases a with
  | harvest run job faults =>
      exact (keeps_startHarvest inv uncounted_of_around
        (fun _ _ _ _ _ _ _ _ => harvestItem_counts { run with env }) rfl db {}
          (inv.clean db [])).exec keep h faults
  | recompute personId now faults =>
      have part : Foresight backend (Counted env.maths none)
          (fun db s => s.Sees backend (Counted env.maths none) (Counted env.maths none) db)
          (recomputation env personId now)
          fun _ db s => s.Foresees backend (Counted env.maths none) (Counted env.maths none) db :=
        recomputeFounderScore_foresight.bind fun _ => (Keeps.commit inv).triple
      exact (part db {} ⟨inv.clean db [], Or.inr rfl⟩).exec keep h faults

/-- In every history each person counts exactly their signals, and where each of these has a
source row of its own, the source rows bound the sources; without events of other origin they
do only there. -/
theorem sources_bounded (env : Env) (db : Db) (history : List SourcingEvent)
    (start : Counted env.maths none db) :
    Along (sourcingStep env) (fun db' => ∀ p ∈ db'.persons,
      p.signalCount = (signalsOf p.id db').length ∧
      (OnePerSource p.id db' → SourceBounded env.maths p db') ∧
      (unsignedEvents p.id db' = [] → SourceBounded env.maths p db' → OnePerSource p.id db'))
      db history := by
  have keep : Along (sourcingStep env) (Counted env.maths none) db history :=
    along_of_step (fun _ a h => counted_step a h) start
  exact keep.mono fun _ h p hp =>
    ⟨h.signalCount hp, h.bounded hp, fun signed hbounded => hbounded.onePerSource h hp signed⟩

end History

section Bight

def bightRepo (name : String) : NormalizedSignal where
  kind := .repoActivity
  title := some name
  companyName := some "Bight"
  stars := 10
  contentHash := name
  observedAt := 0
  identities := [{ provider := "github", value := "bea" }]

def bightIds : Draw → Uuid
  | .source seq => 1 + seq
  | .channel seq => 11 + seq
  | .signal seq item => 100 + 10 * seq + item
  | .company seq item => 200 + 10 * seq + item
  | .person seq item => 300 + 10 * seq + item
  | .chunk seq item => 400 + 10 * seq + item
  | .edge seq item => 500 + 10 * seq + item
  | .opportunity seq item => 600 + 10 * seq + item
  | .child seq item => 700 + 10 * seq + item
  | _ => 0

def bightRun (names : List String) : RunEnv where
  env := plainEnv
  analysis := noAnalysis
  now _ := 0
  id := bightIds
  enabled _ := true
  harvested _ := names.map bightRepo

def bightJob : Job where
  id := 40
  orgId := some 8
  kind := "ingest.harvest"
  createdAt := 0
  input := { channels := .names ["github"] }

def bightDb : Db where
  orgs := ⟨[{ id := 8, name := "Bight Fund", slug := "bight-fund" }], by decide⟩

/-- Three repositories of one founder, all from one source. -/
def bightHarvest : SourcingEvent := .harvest (bightRun ["kite", "spar", "luff"]) bightJob []

/-- Three signals of one source count as three sources and end the cold start. -/
theorem one_source_ends_cold_start :
    ¬ Along (sourcingStep plainEnv) (fun db => ∀ p ∈ db.persons, SourceBounded plainEnv.maths p db)
      bightDb [bightHarvest] ∧
    (sourcingStep plainEnv bightDb bightHarvest).founderScores.rows.map FounderScore.coldStart =
      [false] := by
  have rows : ((sourcingStep plainEnv bightDb bightHarvest).persons.rows.map fun p =>
      (p.sourceCount, sourceBound p.id (sourcingStep plainEnv bightDb bightHarvest))) =
      [(3, 1)] := by decide +kernel
  refine ⟨fun run => ?_, by decide +kernel⟩
  obtain ⟨p, hp, hrow⟩ := List.mem_map.mp (rows ▸ List.mem_singleton_self _)
  obtain ⟨hsource, hbound⟩ := Prod.mk.inj hrow
  have hle := (run.last p hp).counter
  change p.sourceCount ≤ sourceBound p.id (sourcingStep plainEnv bightDb bightHarvest) at hle
  omega

theorem counted_bightDb : Counted plainEnv.maths none bightDb where
  owners s hs := absurd hs (Table.not_mem_empty s)
  counts p hp := absurd hp (Table.not_mem_empty p)
  events _ he := absurd he List.not_mem_nil
  scores row hrow := absurd hrow (Table.not_mem_empty row)

/-- A repository and a post of one founder: the two connectors have a source row each. -/
def bightSources : List SourcingEvent :=
  [.harvest
    { bightRun [] with harvested := fun key => [bightRepo key] }
    { bightJob with input := { channels := .names ["github", "hackernews"] } } [],
    .recompute 310 86400000000 []]

/-- Two sources, and no more than two are counted. -/
theorem two_sources_are_two : ∃ p ∈ (bightSources.foldl (sourcingStep plainEnv) bightDb).persons,
    p.sourceCount = 2 ∧
      OnePerSource p.id (bightSources.foldl (sourcingStep plainEnv) bightDb) ∧
      SourceBounded plainEnv.maths p (bightSources.foldl (sourcingStep plainEnv) bightDb) := by
  have rows : ((bightSources.foldl (sourcingStep plainEnv) bightDb).persons.rows.map fun p =>
      (p.id, p.sourceCount)) = [(310, 2)] := by decide +kernel
  have sources : OnePerSource 310 (bightSources.foldl (sourcingStep plainEnv) bightDb) := by
    unfold OnePerSource
    decide +kernel
  obtain ⟨p, hp, hrow⟩ := List.mem_map.mp (rows ▸ List.mem_singleton_self _)
  obtain ⟨hid, hcount⟩ := Prod.mk.inj hrow
  have one : OnePerSource p.id (bightSources.foldl (sourcingStep plainEnv) bightDb) := hid ▸ sources
  exact ⟨p, hp, hcount, one,
    ((sources_bounded plainEnv bightDb bightSources counted_bightDb).last p hp).2.1 one⟩

end Bight

end DolphinVC
