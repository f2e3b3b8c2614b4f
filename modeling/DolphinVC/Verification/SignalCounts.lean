import Mathlib
import DolphinVC.Transaction.View
import DolphinVC.Verification.HarvestLoop
import DolphinVC.Verification.FounderTrends

/-!
# Sources behind a Founder Score

The counters of a person and the source keys of their score events go by signals. In every
history both counters are the number of signals linked to the person, and a stored score rests
on events of these signals; where no two of the signals share a source row, the sources behind
the person bound them all.
-/

namespace DolphinVC

open Relational Transaction

section Rows

variable {m : ScoreMaths Rat} {db db' : Db} {id : Uuid}

/-- The signals linked to a person. -/
def signalsOf (personId : Uuid) (db : Db) : List Signal :=
  db.signals.rows.filter fun s => s.personId = some personId

/-- The source rows behind them. -/
def sourcesOf (personId : Uuid) (db : Db) : Finset Uuid :=
  ((signalsOf personId db).map Signal.sourceId).toFinset

def unsignedEvents (personId : Uuid) (db : Db) : List FounderScoreEvent :=
  db.founderScoreEvents.filter fun e => e.personId = personId ∧ e.signalId = none

/-- What the events of a person come to. -/
def resultOf (m : ScoreMaths Rat) (es : List FounderScoreEvent) (now : Timestamp) :
    FounderScoreResult Rat :=
  scored m .standard (tally m (es.map FounderScoreEvent.scored) now)

/-- The row has the confidence and the cold start of some of the person's events. -/
def RestsOn (m : ScoreMaths Rat) (events : List FounderScoreEvent) (row : FounderScore) : Prop :=
  ∃ (es : List FounderScoreEvent) (now : Timestamp),
    (∀ e ∈ es, e ∈ events ∧ e.personId = row.personId) ∧
    row.confidence = (resultOf m es now).confidence ∧ row.coldStart = (resultOf m es now).coldStart

/-- What every harvest keeps. `ahead` is a person whose signal is counted before it is linked. -/
structure Counted (m : ScoreMaths Rat) (ahead : Option Uuid) (db : Db) : Prop where
  owners : ∀ s ∈ db.signals, ∀ id, s.personId = some id → ∃ p ∈ db.persons, p.id = id
  counts : ∀ p ∈ db.persons,
    p.signalCount = (signalsOf p.id db).length + (if ahead = some p.id then 1 else 0) ∧
      p.sourceCount = p.signalCount
  events : ∀ e ∈ db.founderScoreEvents, ∀ id, e.signalId = some id →
    ∃ s ∈ db.signals, s.id = id ∧ s.personId = some e.personId
  scores : ∀ row ∈ db.founderScores, RestsOn m db.founderScoreEvents row

/-- The statement links no signal, counts none and writes no score. -/
def Write.Uncounted : Write → Prop
  | .insertSignal row => row.personId = none
  | .assignSignal _ _ personId => personId = none
  | .insertPerson row => row.signalCount = 0 ∧ row.sourceCount = 0
  | .countSignal _ _ _ _ | .addEmail _ _ | .mergePerson _ _ | .erasePerson _
  | .insertFounderScoreEvent _ | .insertFounderScore _ | .updateFounderScore _ => False
  | _ => True

theorem RestsOn.mono {events events' : List FounderScoreEvent} {row : FounderScore}
    (h : RestsOn m events row) (hsub : events ⊆ events') : RestsOn m events' row := by
  obtain ⟨es, now, hes, hrest⟩ := h
  exact ⟨es, now, fun e he => ⟨hsub (hes e he).1, (hes e he).2⟩, hrest⟩

theorem signalsOf_congr (h : db'.signals = db.signals) : signalsOf id db' = signalsOf id db := by
  rw [signalsOf, h, signalsOf]

theorem signalsOf_insert {row : Signal} (hrow : row.personId = none)
    (h : db.signals.insert? row = some db'.signals) : signalsOf id db' = signalsOf id db := by
  rw [signalsOf, (Table.insert?_eq_some_iff.mp h).2, List.filter_append]
  simp [signalsOf, hrow]

/-- The counts of a person follow a signal that gets linked. -/
theorem length_signalsOf_assign {s : Signal} {personId : Uuid} {f : Signal → Signal}
    {keeps : ∀ r, (f r).id = r.id} (hs : s ∈ db.signals) (unlinked : s.personId = none)
    (linked : (f s).personId = some personId) (h : db'.signals = db.signals.update s.id f keeps) :
    (signalsOf id db').length = (signalsOf id db).length + if personId = id then 1 else 0 := by
  obtain ⟨before, after, hrows, hupdate⟩ := Table.rows_update hs
  rw [signalsOf, signalsOf, h, hupdate, hrows]
  simp only [List.filter_append, List.filter_cons, unlinked, linked, List.length_append]
  by_cases hid : personId = id
  · simp [hid]
    omega
  · simp [hid]

variable {ahead : Option Uuid} {w : Write}

/-- A statement about stored scores keeps the counts. -/
theorem Counted.of_scores (h : Counted m ahead db) (hpersons : db'.persons = db.persons)
    (hsignals : db'.signals = db.signals)
    (hevents : db'.founderScoreEvents = db.founderScoreEvents)
    (hscores : ∀ row ∈ db'.founderScores, RestsOn m db.founderScoreEvents row) :
    Counted m ahead db' where
  owners := hsignals ▸ hpersons ▸ h.owners
  counts p hp := by
    rw [signalsOf_congr hsignals]
    exact h.counts p (hpersons ▸ hp)
  events := hevents ▸ hsignals ▸ h.events
  scores := hevents ▸ hscores

/-- A statement about other tables keeps the counts. -/
theorem Counted.of_eq (h : Counted m ahead db) (hpersons : db'.persons = db.persons)
    (hsignals : db'.signals = db.signals)
    (hevents : db'.founderScoreEvents = db.founderScoreEvents)
    (hscores : db'.founderScores = db.founderScores) : Counted m ahead db' :=
  h.of_scores hpersons hsignals hevents (hscores ▸ h.scores)

theorem Counted.insertSignal {row : Signal} (h : Counted m ahead db) (hrow : row.personId = none)
    (happly : db.apply (.insertSignal row) = .ok db') : Counted m ahead db' := by
  obtain ⟨t, ht, rfl⟩ := map_eq_ok.mp happly
  have hins := (insertRow_eq_ok.mp ht).2
  refine ⟨fun s hs id hid => ?_, fun p hp => ?_, fun e he id hid => ?_, h.scores⟩
  · obtain hs | rfl := (Table.mem_insert? hins).mp hs
    · exact h.owners s hs id hid
    · rw [hrow] at hid
      cases hid
  · rw [signalsOf_insert hrow hins]
    exact h.counts p hp
  · obtain ⟨s, hs, hsid, hlinked⟩ := h.events e he id hid
    exact ⟨s, (Table.mem_insert? hins).mpr (Or.inl hs), hsid, hlinked⟩

theorem Counted.insertPerson {row : Person} (h : Counted m ahead db)
    (hahead : ahead ≠ some row.id) (hsignal : row.signalCount = 0) (hsource : row.sourceCount = 0)
    (happly : db.apply (.insertPerson row) = .ok db') : Counted m ahead db' := by
  obtain ⟨t, ht, rfl⟩ := map_eq_ok.mp happly
  have hins := (insertRow_eq_ok.mp ht).2
  refine ⟨fun s hs id hid => ?_, fun p hp => ?_, h.events, h.scores⟩
  · obtain ⟨p, hp, hpid⟩ := h.owners s hs id hid
    exact ⟨p, (Table.mem_insert? hins).mpr (Or.inl hp), hpid⟩
  · obtain hp | rfl := (Table.mem_insert? hins).mp hp
    · exact h.counts p hp
    · have hnone : signalsOf p.id db = [] := by
        refine List.filter_eq_nil_iff.mpr fun s hs hlinked => ?_
        obtain ⟨q, hq, hqid⟩ := h.owners s hs p.id (of_decide_eq_true hlinked)
        exact Table.fresh_of_insert? hins hq hqid
      change p.signalCount = (signalsOf p.id db).length + _ ∧ _
      rw [hnone, if_neg hahead, hsignal, hsource]
      exact ⟨rfl, rfl⟩

/-- What a link to candidates changes. -/
theorem assign_apply {signalId companyId : Uuid} {personId : Option Uuid}
    (happly : db.apply (.assignSignal signalId companyId personId) = .ok db') :
    ∃ (f : Signal → Signal) (keeps : ∀ s, (f s).id = s.id),
      db'.signals = db.signals.update signalId f keeps ∧
      (∀ s, (f s).personId = personId.or s.personId) ∧ db'.persons = db.persons ∧
      db'.founderScoreEvents = db.founderScoreEvents ∧ db'.founderScores = db.founderScores := by
  cases happly
  exact ⟨fun s => { s with companyId := some companyId, personId := personId.or s.personId },
    fun _ => rfl, rfl, fun _ => rfl, rfl, rfl, rfl⟩

theorem count_apply {personId : Uuid} {at' : Timestamp} {signalCount sourceCount : Nat}
    (happly : db.apply (.countSignal personId at' signalCount sourceCount) = .ok db') :
    ∃ (f : Person → Person) (keeps : ∀ p, (f p).id = p.id),
      db'.persons = db.persons.update personId f keeps ∧
      (∀ p, (f p).signalCount = signalCount ∧ (f p).sourceCount = sourceCount) ∧
      db'.signals = db.signals ∧ db'.founderScoreEvents = db.founderScoreEvents ∧
      db'.founderScores = db.founderScores := by
  cases happly
  exact ⟨fun p => { p with lastSignalAt := some at', signalCount, sourceCount },
    fun _ => rfl, rfl, fun _ => ⟨rfl, rfl⟩, rfl, rfl, rfl⟩

/-- Whatever is linked stays linked. -/
theorem linked_assign {signalId : Uuid} {f : Signal → Signal} {keeps : ∀ s, (f s).id = s.id}
    (hsignals : db'.signals = db.signals.update signalId f keeps) {s : Signal} {personId : Uuid}
    (hs : s ∈ db.signals) (hlinked : s.personId = some personId)
    (hkeeps : s.id = signalId → (f s).personId = some personId) :
    ∃ s' ∈ db'.signals, s'.id = s.id ∧ s'.personId = some personId := by
  rw [hsignals]
  refine ⟨_, Table.mem_update.mpr ⟨s, hs, rfl⟩, ?_⟩
  by_cases hid : s.id = signalId
  · rw [if_pos hid]
    exact ⟨keeps s, hkeeps hid⟩
  · rw [if_neg hid]
    exact ⟨rfl, hlinked⟩

/-- The company of a signal is no matter here. -/
theorem Counted.assignCompany {signalId companyId : Uuid} (h : Counted m ahead db)
    (happly : db.apply (.assignSignal signalId companyId none) = .ok db') :
    Counted m ahead db' := by
  obtain ⟨f, keeps, hsignals, hperson, hpersons, hevents, hscores⟩ := assign_apply happly
  simp only [Option.none_or] at hperson
  refine ⟨fun s hs id hid => ?_, fun p hp => ?_, fun e he id hid => ?_, ?_⟩
  · rw [hsignals] at hs
    obtain ⟨s₀, hs₀, rfl⟩ := Table.mem_update.mp hs
    rw [hpersons]
    refine h.owners s₀ hs₀ id ?_
    split at hid
    · rwa [hperson] at hid
    · exact hid
  · have hsame : (signalsOf p.id db').length = (signalsOf p.id db).length := by
      rw [signalsOf, hsignals]
      change (List.filter _ (db.signals.rows.map _)).length = _
      rw [List.filter_map, List.length_map, signalsOf]
      congr 2
      funext s
      simp only [Function.comp_apply]
      split
      · rw [hperson]
      · rfl
    rw [hsame]
    exact h.counts p (hpersons ▸ hp)
  · obtain ⟨s, hs, hsid, hlinked⟩ := h.events e (hevents ▸ he) id hid
    obtain ⟨s', hs', hid', hlinked'⟩ :=
      linked_assign hsignals hs hlinked fun _ => (hperson s).trans hlinked
    exact ⟨s', hs', hid'.trans hsid, hlinked'⟩
  · exact hscores ▸ hevents ▸ h.scores

/-- The signal of the person who is ahead gets linked. -/
theorem Counted.assignPerson {signalId companyId personId : Uuid}
    (h : Counted m (some personId) db) {s : Signal} (hs : s ∈ db.signals) (hid : s.id = signalId)
    (unlinked : s.personId = none) (hperson : ∃ p ∈ db.persons, p.id = personId)
    (happly : db.apply (.assignSignal signalId companyId (some personId)) = .ok db') :
    Counted m none db' ∧ ∃ s ∈ db'.signals, s.id = signalId ∧ s.personId = some personId := by
  obtain ⟨f, keeps, hsignals, hassigned, hpersons, hevents, hscores⟩ := assign_apply happly
  simp only [Option.some_or] at hassigned
  subst hid
  have hmem : f s ∈ db'.signals := by
    rw [hsignals]
    exact Table.mem_update.mpr ⟨s, hs, if_pos rfl⟩
  refine ⟨⟨fun s' hs' id hid => ?_, fun p hp => ?_, fun e he id hid => ?_, ?_⟩,
    f s, hmem, keeps s, hassigned s⟩
  · rw [hsignals] at hs'
    obtain ⟨s₀, hs₀, rfl⟩ := Table.mem_update.mp hs'
    rw [hpersons]
    split at hid
    · rw [hassigned] at hid
      exact Option.some.inj hid ▸ hperson
    · exact h.owners s₀ hs₀ id hid
  · rw [length_signalsOf_assign hs unlinked (hassigned s) hsignals]
    obtain ⟨hcount, hsource⟩ := h.counts p (hpersons ▸ hp)
    refine ⟨?_, hsource⟩
    simpa using hcount
  · obtain ⟨s', hs', hsid, hlinked⟩ := h.events e (hevents ▸ he) id hid
    obtain ⟨r, hr, hrid, hrlinked⟩ := linked_assign hsignals hs' hlinked fun heq => by
      obtain rfl : s' = s := Table.eq_of_key hs' hs heq
      rw [unlinked] at hlinked
      cases hlinked
    exact ⟨r, hr, hrid.trans hsid, hrlinked⟩
  · exact hscores ▸ hevents ▸ h.scores

/-- Counting a signal puts its person ahead. -/
theorem Counted.countSignal {person : Person} {at' : Timestamp} (h : Counted m none db)
    (hperson : person ∈ db.persons)
    (happly : db.apply (.countSignal person.id at' (person.signalCount + 1)
      (person.sourceCount + 1)) = .ok db') :
    Counted m (some person.id) db' ∧ db'.signals = db.signals ∧
      ∃ p ∈ db'.persons, p.id = person.id := by
  obtain ⟨f, keeps, hpersons, hcounts, hsignals, hevents, hscores⟩ := count_apply happly
  have hmem : f person ∈ db'.persons := by
    rw [hpersons]
    exact Table.mem_update.mpr ⟨person, hperson, if_pos rfl⟩
  refine ⟨⟨fun s hs id hid => ?_, fun p hp => ?_, ?_, ?_⟩, hsignals, f person, hmem, keeps person⟩
  · obtain ⟨p, hp, rfl⟩ := h.owners s (hsignals ▸ hs) id hid
    rw [hpersons]
    refine ⟨_, Table.mem_update.mpr ⟨p, hp, rfl⟩, ?_⟩
    split
    · exact keeps p
    · rfl
  · rw [signalsOf_congr hsignals]
    rw [hpersons] at hp
    obtain ⟨p₀, hp₀, rfl⟩ := Table.mem_update.mp hp
    by_cases hid : p₀.id = person.id
    · obtain rfl : p₀ = person := Table.eq_of_key hp₀ hperson hid
      obtain ⟨hcount, hsource⟩ := h.counts p₀ hp₀
      rw [if_pos rfl, keeps, if_pos rfl, (hcounts p₀).1, (hcounts p₀).2, hsource, hcount]
      simp
    · rw [if_neg hid, if_neg fun heq => hid (Option.some.inj heq).symm]
      simpa using h.counts p₀ hp₀
  · exact hevents ▸ hsignals ▸ h.events
  · exact hscores ▸ hevents ▸ h.scores

/-- An event of the person on a signal of theirs. -/
theorem Counted.insertEvent {row : FounderScoreEvent} {signalId : Uuid} (h : Counted m none db)
    (hrow : row.signalId = some signalId)
    (hlinked : ∃ s ∈ db.signals, s.id = signalId ∧ s.personId = some row.personId)
    (happly : db.apply (.insertFounderScoreEvent row) = .ok db') : Counted m none db' := by
  cases happly
  refine ⟨h.owners, h.counts, fun e he id hid => ?_, fun score hscore =>
    (h.scores score hscore).mono (List.subset_append_left _ _)⟩
  obtain he | he := List.mem_append.mp he
  · exact h.events e he id hid
  · obtain rfl := List.mem_singleton.mp he
    rw [hrow] at hid
    exact Option.some.inj hid ▸ hlinked

theorem rescore_apply {row : FounderScore} (happly : db.apply (.updateFounderScore row) = .ok db') :
    ∃ (f : FounderScore → FounderScore) (keeps : ∀ r, (f r).personId = r.personId),
      db'.founderScores = db.founderScores.update row.personId f keeps ∧
      (∀ r, (f r).confidence = row.confidence ∧ (f r).coldStart = row.coldStart) ∧
      db'.persons = db.persons ∧ db'.signals = db.signals ∧
      db'.founderScoreEvents = db.founderScoreEvents := by
  cases happly
  exact ⟨fun r => { row with personId := r.personId }, fun _ => rfl, rfl, fun _ => ⟨rfl, rfl⟩,
    rfl, rfl, rfl⟩

/-- A result stored for the events of its person rests on them. -/
theorem Counted.scoreWrite {now : Timestamp} {personId : Uuid} {events : List FounderScoreEvent}
    {current? : Option FounderScore} (h : Counted m ahead db)
    (hevents : founderEvents personId db = events)
    (hrow : db.founderScores.find? personId = current?)
    (happly : db.apply (scoreWrite personId (resultOf m events now) now current?) = .ok db') :
    Counted m ahead db' := by
  have rests (row : FounderScore) (hid : row.personId = personId)
      (hconfidence : row.confidence = (resultOf m events now).confidence)
      (hcold : row.coldStart = (resultOf m events now).coldStart) :
      RestsOn m db.founderScoreEvents row := by
    refine ⟨events, now, fun e he => ?_, hconfidence, hcold⟩
    rw [← hevents] at he
    obtain ⟨he, hperson⟩ := List.mem_filter.mp ((List.mem_insertionSort _).mp he)
    exact ⟨he, (of_decide_eq_true hperson).trans hid.symm⟩
  cases current? with
  | none =>
      obtain ⟨t, ht, rfl⟩ := map_eq_ok.mp happly
      refine h.of_scores rfl rfl rfl fun row hmem => ?_
      obtain hold | rfl := (Table.mem_insert? (insertRow_eq_ok.mp ht).2).mp hmem
      · exact h.scores row hold
      · exact rests _ rfl rfl rfl
  | some current =>
      have hid : current.personId = personId := Table.key_of_find? hrow
      obtain ⟨f, keeps, hscores, hf, hpersons, hsignals, hevents'⟩ := rescore_apply happly
      refine h.of_scores hpersons hsignals hevents' fun row hmem => ?_
      rw [hscores] at hmem
      obtain ⟨row₀, hrow₀, rfl⟩ := Table.mem_update.mp hmem
      by_cases hkey : row₀.personId = current.personId
      · rw [if_pos (by exact hkey)]
        exact rests _ ((keeps row₀).trans (hkey.trans hid)) (hf row₀).1 (hf row₀).2
      · rw [if_neg (by exact hkey)]
        exact h.scores row₀ hrow₀

theorem Counted.apply (h : Counted m ahead db) (hahead : ahead = none) (hw : w.Uncounted)
    (happly : db.apply w = .ok db') : Counted m ahead db' := by
  cases w with
  | insertSignal row => exact h.insertSignal hw happly
  | insertPerson row => exact h.insertPerson (by simp [hahead]) hw.1 hw.2 happly
  | assignSignal signalId companyId personId =>
      obtain rfl : personId = none := hw
      exact h.assignCompany happly
  | countSignal personId at' signalCount sourceCount => exact hw.elim
  | addEmail personId emails => exact hw.elim
  | mergePerson loserId winnerId => exact hw.elim
  | erasePerson id => exact hw.elim
  | insertFounderScoreEvent row => exact hw.elim
  | insertFounderScore row => exact hw.elim
  | updateFounderScore row => exact hw.elim
  | refused e => cases happly
  | _ =>
      simp only [Db.apply, map_eq_ok, ite_error_eq_ok, Except.ok.injEq] at happly
      first
      | (subst happly; exact h.of_eq rfl rfl rfl rfl)
      | (obtain ⟨t, -, rfl⟩ := happly; exact h.of_eq rfl rfl rfl rfl)
      | (obtain ⟨-, t, -, rfl⟩ := happly; exact h.of_eq rfl rfl rfl rfl)

end Rows

section Sessions

open Tx

variable {m : ScoreMaths Rat} {run : RunEnv} {job : Job} {item : NormalizedSignal}
variable {source : Source} {company : Company} {ids : CandidateIds} {now : Timestamp}
variable {signalId personId : Uuid} {α : Type}

/-- The signal is stored and nobody's yet. -/
def Unlinked (m : ScoreMaths Rat) (signalId : Uuid) (db : Db) : Prop :=
  Counted m none db ∧ ∃ s ∈ db.signals, s.id = signalId ∧ s.personId = none

/-- The signal is counted for the person but not linked. -/
def Ahead (m : ScoreMaths Rat) (signalId personId : Uuid) (db : Db) : Prop :=
  Counted m (some personId) db ∧ (∃ s ∈ db.signals, s.id = signalId ∧ s.personId = none) ∧
    ∃ p ∈ db.persons, p.id = personId

def LinkedTo (m : ScoreMaths Rat) (signalId personId : Uuid) (db : Db) : Prop :=
  Counted m none db ∧ ∃ s ∈ db.signals, s.id = signalId ∧ s.personId = some personId

/-- What the look-up of a person leaves to be linked. -/
def ToLink (m : ScoreMaths Rat) (signalId : Uuid) : Option Person → Db → Prop
  | none => Unlinked m signalId
  | some person => Ahead m signalId person.id

/-- The part may stand behind statements that are not flushed. -/
def Expects (m : ScoreMaths Rat) (F : Db → Prop) (p : DolphinVC.Tx α) (G : α → Db → Prop) : Prop :=
  Foresight backend (Counted m none) (fun db s => s.Foresees backend (Counted m none) F db) p
    fun a db s => s.Foresees backend (Counted m none) (G a) db

/-- The part looks up with everything flushed, and ends so. -/
def Finds (m : ScoreMaths Rat) (F : Db → Prop) (p : DolphinVC.Tx α) (G : α → Db → Prop) : Prop :=
  Foresight backend (Counted m none) (fun db s => s.Sees backend (Counted m none) F db) p
    fun a db s => s.Sees backend (Counted m none) (G a) db

/-- A statement that is not about linking keeps the signal as it is. -/
theorem signal_persists {db db' : Db} {w : Write} (hw : w.Uncounted)
    (happly : db.apply w = .ok db') {s : Signal} (hs : s ∈ db.signals) :
    ∃ s' ∈ db'.signals, s'.id = s.id ∧ s'.personId = s.personId := by
  obtain ⟨row, rfl, hins⟩ | ⟨target, companyId, personId, rfl, heq⟩ | ⟨-, heq⟩ :=
    signals_apply happly
  · exact ⟨s, (Table.mem_insert? hins).mpr (Or.inl hs), rfl, rfl⟩
  · obtain rfl : personId = none := hw
    rw [heq]
    refine ⟨_, Table.mem_update.mpr ⟨s, hs, rfl⟩, ?_⟩
    split
    · exact ⟨rfl, rfl⟩
    · exact ⟨rfl, rfl⟩
  · exact ⟨s, heq ▸ hs, rfl, rfl⟩

theorem Unlinked.apply {db db' : Db} {w : Write} (h : Unlinked m signalId db) (hw : w.Uncounted)
    (happly : db.apply w = .ok db') : Unlinked m signalId db' := by
  obtain ⟨hcounted, s, hs, hid, hlink⟩ := h
  obtain ⟨s', hs', hid', hlink'⟩ := signal_persists hw happly hs
  exact ⟨hcounted.apply rfl hw happly, s', hs', hid'.trans hid, hlink'.trans hlink⟩

theorem LinkedTo.apply {db db' : Db} {w : Write} (h : LinkedTo m signalId personId db)
    (hw : w.Uncounted) (happly : db.apply w = .ok db') : LinkedTo m signalId personId db' := by
  obtain ⟨hcounted, s, hs, hid, hlink⟩ := h
  obtain ⟨s', hs', hid', hlink'⟩ := signal_persists hw happly hs
  exact ⟨hcounted.apply rfl hw happly, s', hs', hid'.trans hid, hlink'.trans hlink⟩

theorem expects_uncounted {p : DolphinVC.Tx α} (h : Stages Write.Uncounted p) :
    Expects m (Counted m none) p fun _ => Counted m none :=
  h.foresight (fun _ h => h) fun _ _ _ hw hv happly => hv.apply rfl hw happly

theorem mem_of_personByIdentity {env : Env} {provider value : String} {person : Person} {db : Db}
    (h : personByIdentity env provider value db = some person) : person ∈ db.persons := by
  obtain hfind | ⟨-, hfind⟩ := Option.or_eq_some_iff.mp h
  · exact List.mem_of_find?_eq_some hfind
  · split at hfind
    · cases hfind
    · exact List.mem_of_find?_eq_some hfind

/-- The person that an identity stands for is stored. -/
theorem personOfIdentity_finds {env : Env} {provider value : String} {id : Uuid} :
    Finds m (Unlinked m signalId) (personOfIdentity env provider value id)
      fun person db => Unlinked m signalId db ∧ person ∈ db.persons := by
  refine (Foresight.query (fun _ h => h.1) _).bind fun person? => ?_
  cases person? with
  | some person =>
      exact Foresight.pure fun db s h =>
        h.mono fun view hview => ⟨hview.1, mem_of_personByIdentity hview.2⟩
  | none =>
      refine Foresight.bind (K := fun _ db s => s.Foresees backend (Counted m none)
        (fun db => Unlinked m signalId db ∧ newSignalPerson env id provider value ∈ db.persons) db)
        ?_ fun _ => Foresight.flush.bind fun _ => Foresight.pure fun _ _ h => h
      refine (Foresight.stage (F := Unlinked m signalId) fun v v' hv happly => ?_).consequence
        (fun db s h => (h.mono fun _ hv => hv.1).1) fun _ _ _ h => h
      have hw : Write.Uncounted (.insertPerson (newSignalPerson env id provider value)) :=
        ⟨rfl, rfl⟩
      refine ⟨hv.apply hw happly, ?_⟩
      obtain ⟨t, ht, rfl⟩ := map_eq_ok.mp happly
      exact (Table.mem_insert? (insertRow_eq_ok.mp ht).2).mpr (Or.inr rfl)

/-- The signal is new, so it is counted. -/
theorem countSignalOnce_foresight {person : Person} :
    Foresight backend (Counted m none)
      (fun db s => s.Sees backend (Counted m none)
        (fun db => Unlinked m signalId db ∧ person ∈ db.persons) db)
      (countSignalOnce person item signalId)
      fun _ db s => s.Foresees backend (Counted m none) (Ahead m signalId person.id) db := by
  refine (Foresight.query (fun _ h => h.1.1) _).bind fun linked => ?_
  by_cases hlinked : linked = some person.id
  · rw [if_pos hlinked]
    refine Foresight.pure fun db s h => h.1.mono ?_
    rintro view ⟨⟨⟨-, s, hs, hid, hnone⟩, -⟩, hlook⟩
    rw [Table.find?_eq_some_iff.mpr ⟨hs, hid⟩, Option.bind_some, hnone, hlinked] at hlook
    cases hlook
  · rw [if_neg hlinked]
    refine (Foresight.stage (F := fun db => Unlinked m signalId db ∧ person ∈ db.persons)
      fun v v' hv happly => ?_).consequence (fun db s h => (h.mono fun _ hv => hv.1).1)
        fun _ _ _ h => h
    obtain ⟨hahead, hsignals, hperson⟩ := hv.1.1.countSignal hv.2 happly
    exact ⟨hahead, hsignals ▸ hv.1.2, hperson⟩

theorem ensureSignalPerson_foresight {env : Env} {id : Uuid} :
    Foresight backend (Counted m none)
      (fun db s => s.Sees backend (Counted m none) (Unlinked m signalId) db)
      (ensureSignalPerson env item signalId id)
      fun person? db s => s.Foresees backend (Counted m none) (ToLink m signalId person?) db := by
  unfold ensureSignalPerson
  cases bestHint item.identities with
  | none => exact Foresight.pure fun _ _ h => h.1
  | some hint =>
      exact personOfIdentity_finds.bind fun person =>
        countSignalOnce_foresight.bind fun _ => Foresight.pure fun _ _ h => h

theorem ensureCompany_finds {env : Env} {id : Uuid} :
    Finds m (Unlinked m signalId) (ensureCompany env item id)
      fun _ => Unlinked m signalId := by
  refine ((reads_findLiveCompany env item).foresight fun db s h =>
    (h.mono fun _ hv => hv.1).1).bind fun company? => ?_
  cases company? with
  | some company => exact Foresight.pure fun _ _ h => h
  | none =>
      refine ((Foresight.stage fun v v' hv happly => ?_).consequence (fun db s h => h.1)
        fun _ _ _ h => h).bind fun _ => Foresight.flush.bind fun _ =>
          Foresight.pure fun _ _ h => h
      exact hv.apply (w := .insertCompany _) trivial happly

theorem ensureAffiliation_uncounted {companyId : Uuid} {confidence : Rat} :
    Stages Write.Uncounted (ensureAffiliation personId companyId confidence) := by
  refine Stages.bind (Stages.query _) fun existing? => ?_
  cases existing? with
  | none => exact Stages.stage trivial
  | some existing => exact Stages.stage trivial

/-- The events of a signal are its person's. -/
theorem addFounderEvents_expects {occurredAt : Timestamp}
    {events : List (String × Rat × Rat × String)} :
    Expects m (LinkedTo m signalId personId) (addFounderEvents personId signalId occurredAt events)
      fun _ => LinkedTo m signalId personId := by
  have stages : Stages (fun w => ∃ row : FounderScoreEvent, w = .insertFounderScoreEvent row ∧
      row.signalId = some signalId ∧ row.personId = personId)
      (addFounderEvents personId signalId occurredAt events) := by
    induction events with
    | nil => exact Stages.pure _
    | cons event events ih =>
        exact Stages.bind (Stages.query _) fun _ => Stages.ite (fun _ => ih) fun _ =>
          Stages.bind (Stages.stage ⟨_, rfl, rfl, rfl⟩) fun _ => ih
  refine stages.foresight (fun _ h => h.1) ?_
  rintro v _ v' ⟨row, rfl, hrow, rfl⟩ hv happly
  refine ⟨hv.1.insertEvent hrow hv.2 happly, ?_⟩
  cases happly
  exact hv.2

/-- A recomputation rests on the events that it has looked up. -/
theorem recomputeFounderScore_foresight {env : Env} :
    Foresight backend (Counted env.maths none)
      (fun db s => s.Sees backend (Counted env.maths none) (Counted env.maths none) db)
      (recomputeFounderScore env personId now)
      fun _ db s => s.Foresees backend (Counted env.maths none) (Counted env.maths none) db := by
  refine (Foresight.query (fun _ h => h) _).bind fun events =>
    (Foresight.call fun db s h => (h.mono fun _ hv => hv.1).1).bind fun _ => ?_
  rw [computeFounderScore_eq]
  refine (Foresight.query (fun _ h => h.1) _).bind fun current? => ?_
  refine Foresight.bind (K := fun _ db s =>
    s.Foresees backend (Counted env.maths none) (Counted env.maths none) db) ?_ fun _ =>
      expects_uncounted (Stages.bind (Stages.query _) fun snapshot? =>
        Stages.bind (Stages.stage ?_) fun _ => Stages.flush)
  · refine (Foresight.stage (F := fun v => (Counted env.maths none v ∧
      founderEvents personId v = events) ∧ v.founderScores.find? personId = current?)
        fun v v' hv happly => ?_).consequence (fun _ _ h => h.1) fun _ _ _ h => h
    exact hv.1.1.scoreWrite hv.1.2 hv.2 happly
  · cases snapshot? with
    | none => trivial
    | some snapshot => trivial

theorem recordFounderEvents_expects {env : Env} :
    Expects env.maths (LinkedTo env.maths signalId personId)
      (recordFounderEvents env personId signalId item now) fun _ => Counted env.maths none :=
  Foresight.bind addFounderEvents_expects fun _ => Foresight.flush.bind fun _ =>
    recomputeFounderScore_foresight.consequence (fun _ _ h => h.mono fun _ hv => hv.1)
      fun _ _ _ h => h

/-- Whoever is ahead gets the signal linked before anything can fail. -/
theorem linkCandidates_expects {env : Env} {person? : Option Person} :
    Expects env.maths (ToLink env.maths ids.signal person?)
      (linkCandidates env person? company item ids now) fun _ => Counted env.maths none := by
  cases person? with
  | none =>
      exact (Foresight.stage fun v v' hv happly => hv.1.assignCompany happly).bind fun _ =>
        Foresight.pure fun _ _ h => h
  | some person =>
      refine Foresight.bind (Foresight.stage (G := LinkedTo env.maths ids.signal person.id)
        fun v v' hv happly => ?_) fun _ => ?_
      · obtain ⟨hcounted, ⟨s, hs, hid, hnone⟩, hperson⟩ := hv
        exact hcounted.assignPerson hs hid hnone hperson happly
      · exact (ensureAffiliation_uncounted.foresight (fun _ h => h.1)
          fun _ _ _ hw hv happly => hv.apply hw happly).bind fun _ => recordFounderEvents_expects

theorem recordMemory_uncounted {env : Env} {orgId : Option Uuid} {sourceId companyId : Uuid}
    {person? : Option Person} {channel? : Option SourcingChannel} :
    Stages Write.Uncounted
      (recordMemory env orgId item sourceId person? companyId channel? ids) := by
  refine Stages.bind (Stages.call _) fun _ => Stages.bind
    (Stages.ite (fun _ => Stages.pure _) fun _ => Stages.bind (Stages.query _) fun _ =>
      Stages.ite (fun _ => Stages.pure _) fun _ => Stages.stage trivial) fun _ => ?_
  cases channel? with
  | none => exact Stages.pure _
  | some channel =>
      exact Stages.bind (Stages.query _) fun _ =>
        Stages.ite (fun _ => Stages.pure _) fun _ => Stages.stage trivial

theorem resolveOutboundSignal_foresight {env : Env} {orgId : Option Uuid} {sourceId : Uuid}
    {channel? : Option SourcingChannel} :
    Foresight backend (Counted env.maths none)
      (fun db s => s.Sees backend (Counted env.maths none) (Unlinked env.maths ids.signal) db)
      (resolveOutboundSignal env orgId item sourceId channel? ids now)
      fun _ db s => s.Foresees backend (Counted env.maths none) (Counted env.maths none) db :=
  (Foresight.call fun _ _ h => (h.mono fun _ hv => hv.1).1).bind fun _ =>
    Foresight.bind ensureCompany_finds fun _ =>
      ensureSignalPerson_foresight.bind fun _ =>
        Foresight.bind linkCandidates_expects fun _ =>
          expects_uncounted (Stages.bind recordMemory_uncounted fun _ =>
            Stages.bind (resolveOpportunity_stages (fun _ _ _ => trivial) (fun _ => trivial)
              fun _ => trivial) fun _ => Stages.pure _)

/-- An item keeps the counts: its signal is new and nobody's. -/
theorem harvestItem_counts (run : RunEnv) {channel : SourcingChannel} {seq index : Nat} :
    Keeps backend (backend.Preserved (Counted run.env.maths none))
      (fun db s => s.Foresees backend (Counted run.env.maths none) (Counted run.env.maths none) db)
      (harvestItem run job source channel seq index item) := by
  refine (Keeps.query _).bind fun _ => Keeps.ite (fun _ => Keeps.pure _) fun _ =>
    Keeps.bind (Foresight.keeps ?_) fun _ => Keeps.pure _
  refine (Foresight.call fun _ _ h => h).bind fun _ =>
    Foresight.bind (Foresight.stage
      (G := Unlinked run.env.maths (candidateIds run seq index).signal) fun v v' hv happly => ?_)
        fun _ => Foresight.flush.bind fun _ =>
          resolveOutboundSignal_foresight.bind fun candidate => expects_uncounted ?_
  · refine ⟨hv.insertSignal rfl happly, ?_⟩
    obtain ⟨t, ht, rfl⟩ := map_eq_ok.mp happly
    exact ⟨_, (Table.mem_insert? (insertRow_eq_ok.mp ht).2).mpr (Or.inr rfl), rfl, rfl⟩
  · exact Stages.bind (Stages.stage trivial) fun _ => Stages.bind Stages.flush fun _ =>
      Stages.bind (Stages.stage trivial) fun _ => Stages.pure _

end Sessions

end DolphinVC
