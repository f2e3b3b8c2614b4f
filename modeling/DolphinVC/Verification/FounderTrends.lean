import Mathlib
import DolphinVC.Verification.FounderScores
import DolphinVC.Db.Frame

/-!
# Recomputing a Founder Score

A recomputation writes what the events of the person give, and a trend relative to the row it
finds. The first part is the same however often it is done; the trend is forgotten by the next
recomputation, and is the change over 30 days only by chance.
-/

namespace DolphinVC

open Relational Transaction

section Recomputation

variable {env : Env} {personId : Uuid} {now : Timestamp} {db db' : Db}

/-- What `compute_founder_score` gives for the events of a person. -/
def currentScore (env : Env) (personId : Uuid) (now : Timestamp) (db : Db) :
    FounderScoreResult Rat :=
  scored env.maths .standard
    (tally env.maths ((founderEvents personId db).map FounderScoreEvent.scored) now)

/-- A recomputation with the commit of the request behind it. -/
def recomputation (env : Env) (personId : Uuid) (now : Timestamp) : Tx Unit := do
  recomputeFounderScore env personId now
  Tx.commit

/-- The row after a recomputation. -/
def founderRow (personId : Uuid) (r : FounderScoreResult Rat) (now : Timestamp) :
    Option FounderScore → FounderScore
  | none => r.row personId now
  | some current => current.rescore r now

def snapshotRow (personId : Uuid) (r : FounderScoreResult Rat) (now : Timestamp) :
    FounderScoreSnapshot where
  personId
  day := now.date
  score := r.score
  confidence := r.confidence

/-- What a recomputation leaves: the row, the snapshot of the day, and all else as it was. -/
structure Recomputed (env : Env) (personId : Uuid) (now : Timestamp) (db db' : Db) : Prop where
  row : db'.founderScores.find? personId =
    some (founderRow personId (currentScore env personId now db) now
      (db.founderScores.find? personId))
  snapshot : db'.founderScoreSnapshots.find? (personId, now.date) =
    some (snapshotRow personId (currentScore env personId now db) now)
  otherDays : ∀ day, day ≠ now.date → db'.founderScoreSnapshots.find? (personId, day) =
    db.founderScoreSnapshots.find? (personId, day)
  events : db'.founderScoreEvents = db.founderScoreEvents

theorem exists_insertRow {κ ρ : Type} {key : ρ → κ} [DecidableEq κ] {t : Table κ ρ key}
    (name : String) (row : ρ) (h : t.find? (key row) = none) :
    ∃ u, insertRow name t (fun _ => false) row = .ok u ∧ u.find? (key row) = some row ∧
      ∀ k, k ≠ key row → u.find? k = t.find? k := by
  obtain ⟨u, hu⟩ := Table.exists_insert?_iff.mpr (Table.find?_eq_none_iff.mp h)
  exact ⟨u, insertRow_eq_ok.mpr ⟨fun _ _ => rfl, hu⟩,
    Table.find?_of_mem ((Table.mem_insert? hu).mpr (Or.inr rfl)),
    fun k hk => Table.find?_insert?_of_ne hu hk.symm⟩

theorem apply_scoreWrite (personId : Uuid) (now : Timestamp) (db : Db)
    (r : FounderScoreResult Rat) :
    ∃ mid, db.apply (scoreWrite personId r now (db.founderScores.find? personId)) = .ok mid ∧
      mid.founderScores.find? personId =
        some (founderRow personId r now (db.founderScores.find? personId)) ∧
      mid.founderScoreSnapshots = db.founderScoreSnapshots ∧
      mid.founderScoreEvents = db.founderScoreEvents := by
  cases hrow : db.founderScores.find? personId with
  | none =>
      obtain ⟨u, hu, hself, -⟩ := exists_insertRow "founder_scores"
        (r.row personId now) hrow
      exact ⟨{ db with founderScores := u }, map_eq_ok.mpr ⟨u, hu, rfl⟩, hself, rfl, rfl⟩
  | some current =>
      refine ⟨_, rfl, ?_, rfl, rfl⟩
      have hid : current.personId = personId := Table.key_of_find? hrow
      change (db.founderScores.update (current.rescore r now).personId _).find? personId = _
      rw [show (current.rescore r now).personId = personId from hid, Table.find?_update_self, hrow]
      rfl

theorem apply_snapshotWrite (personId : Uuid) (now : Timestamp) (db : Db)
    (r : FounderScoreResult Rat) :
    ∃ mid, db.apply (snapshotWrite personId r now
        (db.founderScoreSnapshots.find? (personId, now.date))) = .ok mid ∧
      mid.founderScores = db.founderScores ∧
      mid.founderScoreSnapshots.find? (personId, now.date) = some (snapshotRow personId r now) ∧
      (∀ day, day ≠ now.date → mid.founderScoreSnapshots.find? (personId, day) =
        db.founderScoreSnapshots.find? (personId, day)) ∧
      mid.founderScoreEvents = db.founderScoreEvents := by
  have hday {day : Int} (h : day ≠ now.date) : (personId, now.date) ≠ (personId, day) :=
    fun heq => h (Prod.mk.inj heq).2.symm
  cases hrow : db.founderScoreSnapshots.find? (personId, now.date) with
  | none =>
      obtain ⟨u, hu, hself, hother⟩ := exists_insertRow "founder_score_snapshots"
        (snapshotRow personId r now) hrow
      exact ⟨{ db with founderScoreSnapshots := u }, map_eq_ok.mpr ⟨u, hu, rfl⟩, rfl, hself,
        fun day h => hother _ (hday h).symm, rfl⟩
  | some current =>
      refine ⟨_, rfl, rfl, ?_, fun day h => ?_, rfl⟩
      rotate_left
      · change (db.founderScoreSnapshots.update (personId, now.date) _).find? _ = _
        exact Table.find?_update_of_ne (hday h)
      change (db.founderScoreSnapshots.update (personId, now.date) _).find? _ = _
      rw [Table.find?_update_self, hrow]
      have hkey := Table.key_of_find? hrow
      obtain ⟨hid, hdate⟩ := Prod.mk.inj hkey
      simp [snapshotRow, ← hid, ← hdate]

theorem wp_flush_commit {s : Session Write} {Q : Except Exc Unit → Db → Prop}
    (live : s.failed = false) (h : backend.applyAll db s.pending = .ok db') (hQ : Q (.ok ()) db') :
    Tx.WP backend (fun r db' _ => Q r db') (Tx.flush >>= fun _ => Tx.commit : Tx Unit) db s := by
  rw [Tx.wp_bind, Tx.wp_flush_live live, h]
  change Tx.WP backend _ (Tx.commit : Tx Unit) db { s with flushed := s.pending, dirty := [] }
  rw [Tx.wp_commit_live (by exact live)]
  rw [show Session.pending _ = s.pending from List.append_nil _, h]
  exact hQ

/-- Storing a result on a session with nothing pending, and the commit behind it. -/
theorem wp_storeFounderScore {r : FounderScoreResult Rat} {Q : Except Exc Unit → Db → Prop}
    (h : ∀ mid db',
      db.apply (scoreWrite personId r now (db.founderScores.find? personId)) = .ok mid →
      mid.apply (snapshotWrite personId r now
        (db.founderScoreSnapshots.find? (personId, now.date))) = .ok db' → Q (.ok ()) db') :
    Tx.WP backend (fun r db' _ => Q r db')
      (storeFounderScore personId r now >>= fun _ => Tx.commit) db {} := by
  obtain ⟨mid, hmid, -, hsnapshots, -⟩ := apply_scoreWrite personId now db r
  obtain ⟨db', hdb', -⟩ := apply_snapshotWrite personId now mid r
  rw [hsnapshots] at hdb'
  have happlied : backend.applyAll db [scoreWrite personId r now (db.founderScores.find? personId),
      snapshotWrite personId r now (db.founderScoreSnapshots.find? (personId, now.date))] =
        .ok db' :=
    Backend.applyAll_cons_eq_ok.mpr ⟨mid, hmid, Backend.applyAll_singleton.trans hdb'⟩
  refine Tx.wp_query_first.mpr (Tx.wp_assoc.mpr (Tx.wp_bind.mpr ?_))
  refine Tx.wp_stage.mpr (Tx.wp_assoc.mpr (Tx.wp_bind.mpr (Tx.wp_query.mpr ?_)))
  refine Tx.wp_assoc.mpr (Tx.wp_bind.mpr (Tx.wp_stage.mpr ?_))
  change Tx.WP backend _ (Tx.flush >>= fun _ => Tx.commit : Tx Unit) db _
  exact wp_flush_commit rfl happlied (h mid db' hmid hdb')

/-- What a recomputation served alone leaves. -/
theorem recomputation_served (env : Env) (personId : Uuid) (now : Timestamp) (db : Db) :
    Recomputed env personId now db ((recomputation env personId now).atomically backend db).2 := by
  refine (Tx.atomically_iff (P := fun _ db' => Recomputed env personId now db db')).mpr ?_
  refine Tx.wp_query_first.mpr (Tx.wp_assoc.mpr (Tx.wp_bind.mpr (Tx.wp_call.mpr ?_)))
  rw [computeFounderScore_eq]
  refine wp_storeFounderScore fun mid db' hmid hdb' => ?_
  obtain ⟨_, hscore, hrow, hsnapshots, hevents⟩ := apply_scoreWrite personId now db
    (currentScore env personId now db)
  obtain rfl : mid = _ := Except.ok.inj (hmid.symm.trans hscore)
  obtain ⟨_, hstored, hscores, hday, hother, hevents'⟩ := apply_snapshotWrite personId now mid
    (currentScore env personId now db)
  rw [hsnapshots] at hstored
  obtain rfl : db' = _ := Except.ok.inj (hdb'.symm.trans hstored)
  exact ⟨(congrArg (·.find? personId) hscores).trans hrow, hday,
    fun day h => (hother day h).trans (congrArg (·.find? (personId, day)) hsnapshots),
    hevents'.trans hevents⟩

/-- The store after `n` recomputations at one clock. -/
def recomputed (env : Env) (personId : Uuid) (now : Timestamp) : Nat → Db → Db
  | 0, db => db
  | n + 1, db => ((recomputation env personId now).atomically backend
      (recomputed env personId now n db)).2

/-- Score, interval, confidence, components, cold start and trend. -/
def FounderScore.measured (row : FounderScore) :
    (Int × Int × Int × Rat) × List (Component × ComponentScore Rat) × Bool × Int × TrendKind :=
  ((row.score, row.ciLow, row.ciHigh, row.confidence), row.components, row.coldStart,
    row.trend30d, row.trend)

theorem recomputed_succ (n : Nat) :
    Recomputed env personId now (recomputed env personId now n db)
      (recomputed env personId now (n + 1) db) :=
  recomputation_served env personId now _

theorem recomputed_events (n : Nat) :
    (recomputed env personId now n db).founderScoreEvents = db.founderScoreEvents := by
  induction n with
  | zero => rfl
  | succ n ih => exact (recomputed_succ n).events.trans ih

theorem currentScore_recomputed (n : Nat) :
    currentScore env personId now (recomputed env personId now n db) =
      currentScore env personId now db := by
  unfold currentScore founderEvents
  rw [recomputed_events]

/-- The snapshot of the day follows the events. -/
theorem recomputed_snapshot (n : Nat) :
    (recomputed env personId now (n + 1) db).founderScoreSnapshots.find? (personId, now.date) =
      some (snapshotRow personId (currentScore env personId now db) now) := by
  rw [(recomputed_succ n).snapshot, currentScore_recomputed]

theorem recomputed_otherDays (n : Nat) {day : Int} (h : day ≠ now.date) :
    (recomputed env personId now n db).founderScoreSnapshots.find? (personId, day) =
      db.founderScoreSnapshots.find? (personId, day) := by
  induction n with
  | zero => rfl
  | succ n ih => exact ((recomputed_succ n).otherDays day h).trans ih

theorem recomputed_row (n : Nat) :
    (recomputed env personId now (n + 1) db).founderScores.find? personId =
      some (founderRow personId (currentScore env personId now db) now
        ((recomputed env personId now n db).founderScores.find? personId)) := by
  rw [(recomputed_succ n).row, currentScore_recomputed]

theorem score_founderRow (r : FounderScoreResult Rat) (row? : Option FounderScore) :
    (founderRow personId r now row?).score = r.score := by
  cases row? <;> rfl

/-- The row of a result that changes nothing. -/
def FounderScoreResult.settled (r : FounderScoreResult Rat) :
    (Int × Int × Int × Rat) × List (Component × ComponentScore Rat) × Bool × Int × TrendKind :=
  ((r.score, r.ciLow, r.ciHigh, r.confidence), r.components, r.coldStart, 0, .stable)

theorem measured_rescore {row : FounderScore} {r : FounderScoreResult Rat}
    (h : row.score = r.score) : (row.rescore r now).measured = r.settled := by
  simp [FounderScore.measured, FounderScore.rescore, FounderScoreResult.settled, h, trendOf]

/-- From the second recomputation on the trend says that nothing has changed. -/
theorem measured_again (env : Env) (personId : Uuid) (now : Timestamp) (db : Db) (n : Nat) :
    ∃ row, (recomputed env personId now (n + 2) db).founderScores.find? personId = some row ∧
      row.measured = (currentScore env personId now db).settled := by
  refine ⟨_, recomputed_row (n + 1), ?_⟩
  rw [recomputed_row n]
  exact measured_rescore (score_founderRow _ _)

/-- Later recomputations leave what the first one left, in the row and in the day's snapshot. -/
def RecomputesOnce (env : Env) (personId : Uuid) (now : Timestamp) (db : Db) : Prop :=
  ∀ n, ((recomputed env personId now (n + 1) db).founderScores.find? personId).map
      FounderScore.measured =
    ((recomputed env personId now 1 db).founderScores.find? personId).map FounderScore.measured ∧
    (recomputed env personId now (n + 1) db).founderScoreSnapshots.find? (personId, now.date) =
      (recomputed env personId now 1 db).founderScoreSnapshots.find? (personId, now.date)

/-- The trend is the difference to the snapshot of 30 days earlier, where there is one. -/
def TrendsOver30Days (env : Env) (personId : Uuid) (now : Timestamp) (db : Db) : Prop :=
  ∀ n row snapshot,
    (recomputed env personId now (n + 1) db).founderScores.find? personId = some row →
    (recomputed env personId now (n + 1) db).founderScoreSnapshots.find?
      (personId, now.date - 30) = some snapshot →
    row.trend30d = row.score - snapshot.score

/-- The row found before the first recomputation has the score of the events already. -/
def UpToDate (env : Env) (personId : Uuid) (now : Timestamp) (db : Db) : Prop :=
  ∃ row, db.founderScores.find? personId = some row ∧
    row.score = (currentScore env personId now db).score

/-- On a row that is up to date the first recomputation says it already. -/
theorem measured_recomputed (h : UpToDate env personId now db) (n : Nat) :
    ∃ row, (recomputed env personId now (n + 1) db).founderScores.find? personId = some row ∧
      row.measured = (currentScore env personId now db).settled := by
  obtain ⟨row, hrow, hscore⟩ := h
  cases n with
  | zero =>
      refine ⟨_, recomputed_row 0, ?_⟩
      rw [show (recomputed env personId now 0 db).founderScores.find? personId = _ from hrow]
      exact measured_rescore hscore
  | succ n => exact measured_again env personId now db n

/-- The first recomputation gives the later rows only to a row that is up to date. -/
theorem upToDate_of_recomputesOnce (h : RecomputesOnce env personId now db) :
    UpToDate env personId now db := by
  obtain ⟨row, hrow, hsettled⟩ := measured_again env personId now db 0
  have hfirst := (h 1).1
  rw [hrow, recomputed_row 0] at hfirst
  have hmeasured := hsettled.symm.trans (Option.some.inj hfirst)
  cases hstart : db.founderScores.find? personId with
  | none =>
      rw [show (recomputed env personId now 0 db).founderScores.find? personId = _ from hstart]
        at hmeasured
      have htrend : TrendKind.stable = .insufficientData := congrArg (·.2.2.2.2) hmeasured
      exact absurd htrend (by decide)
  | some current =>
      rw [show (recomputed env personId now 0 db).founderScores.find? personId = _ from hstart]
        at hmeasured
      have htrend : 0 = (currentScore env personId now db).score - current.score :=
        congrArg (·.2.2.2.1) hmeasured
      exact ⟨current, hstart, by omega⟩

/-- A recomputation changes nothing that the one before it left, and its trend is the change over
30 days, exactly on a row that is up to date and has not changed over these days. -/
theorem recompute_idempotent_iff (env : Env) (personId : Uuid) (now : Timestamp) (db : Db) :
    RecomputesOnce env personId now db ∧ TrendsOver30Days env personId now db ↔
      UpToDate env personId now db ∧
      ∀ snapshot, db.founderScoreSnapshots.find? (personId, now.date - 30) = some snapshot →
        snapshot.score = (currentScore env personId now db).score := by
  have hday : now.date - 30 ≠ now.date := by omega
  constructor
  · rintro ⟨once, trends⟩
    have current := upToDate_of_recomputesOnce once
    refine ⟨current, fun snapshot hsnapshot => ?_⟩
    obtain ⟨row, hrow, hsettled⟩ := measured_recomputed current 0
    have htrend := trends 0 row snapshot hrow ((recomputed_otherDays 1 hday).trans hsnapshot)
    have hzero : row.trend30d = 0 := congrArg (·.2.2.2.1) hsettled
    have hscore : row.score = (currentScore env personId now db).score :=
      congrArg (·.1.1) hsettled
    omega
  · rintro ⟨current, unchanged⟩
    refine ⟨fun n => ⟨?_, ?_⟩, fun n row snapshot hrow hsnapshot => ?_⟩
    · obtain ⟨row, hrow, hsettled⟩ := measured_recomputed current n
      obtain ⟨first, hfirst, hfirst'⟩ := measured_recomputed current 0
      rw [hrow, hfirst, Option.map_some, Option.map_some, hsettled, hfirst']
    · rw [recomputed_snapshot, recomputed_snapshot]
    · obtain ⟨row', hrow', hsettled⟩ := measured_recomputed current n
      obtain rfl := Option.some.inj (hrow.symm.trans hrow')
      have hzero : row.trend30d = 0 := congrArg (·.2.2.2.1) hsettled
      have hscore : row.score = (currentScore env personId now db).score :=
        congrArg (·.1.1) hsettled
      have hpast := unchanged snapshot ((recomputed_otherDays (n + 1) hday).symm.trans hsnapshot)
      omega

end Recomputation

section Sol

/-- A person who has neither events nor a score -/
def solDb : Db where
  persons := ⟨[{ id := 1, displayName := "Sol", normalizedName := "sol" }], by simp⟩

/-- Without events and without a score the second recomputation calls the trend stable. -/
theorem second_recomputation_is_stable :
    ((recomputed plainEnv 1 0 1 solDb).founderScores.find? 1).map FounderScore.trend =
      some .insufficientData ∧
    ((recomputed plainEnv 1 0 2 solDb).founderScores.find? 1).map FounderScore.trend =
      some .stable ∧
    ¬ RecomputesOnce plainEnv 1 0 solDb := by
  refine ⟨?_, ?_, fun h => ?_⟩
  · rw [recomputed_row 0]
    rfl
  · obtain ⟨row, hrow, hsettled⟩ := measured_again plainEnv 1 0 solDb 0
    rw [hrow]
    exact congrArg (fun values => some values.2.2.2.2) hsettled
  · obtain ⟨row, hrow, -⟩ := upToDate_of_recomputesOnce h
    cases hrow

end Sol

end DolphinVC
