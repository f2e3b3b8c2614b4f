import DolphinVC.Transaction.Trace
import DolphinVC.Services.Pipeline

/-!
# What a harvest reports

A turn of the harvest loop ends by closing its connector, so the closes of a trace list the
channels that were attempted. A turn went through when the last thing before its close is the
commit that ends the `try` body. The run lemma reads both off the traces of the loop: the
channels attempted are the keys, and every turn that did not go through left an entry.
-/

namespace DolphinVC

open Transaction

/-- What a request names; the word `auto` stands for all connectors. -/
def Channels.requested : Channels → List String
  | .text s => if s = "auto" then connectorTypes else [s]
  | .names keys => keys

def JobResult.failures : JobResult → List (String × String)
  | .harvest _ _ _ failures => failures
  | _ => []

def Call.Connector : Call → Prop
  | .harvest _ => True
  | .close _ => True
  | _ => False

/-- The database answers, and the limit of the request is a number. -/
def StatementOk : Event Write Exc Call → Prop
  | .queried r => r = .ok ()
  | .staged _ => True
  | .flushed r => r = .ok ()
  | .committed r => r = .ok ()
  | .called m r => m = .evaluate "limit" → r = .ok ()

abbrev Trace := List (Event Write Exc Call)

section Turns

variable (key : String) (t : Trace)

/-- The connector of the channel was built, and closed in the end. -/
def Attempted : Prop := ∃ r, .called (.close key) r ∈ t

/-- The connector has answered, and since then the `try` body has run to its last statement. -/
def WentThrough : Prop :=
  ∃ front middle id now, t = front ++ .called (.harvest key) (.ok ()) ::
      (middle ++ [.staged (.sourceOk id now), .committed (.ok ())]) ∧
    ∀ m r, .called m r ∈ middle → ¬m.Connector

/-- Some turn of the channel did not go through. -/
def TurnFailed : Prop :=
  ∃ front r rest, t = front ++ .called (.close key) r :: rest ∧ ¬WentThrough key front

def Harvested : Prop := Attempted key t ∧ ¬TurnFailed key t

/-- A connector could not be closed. -/
def CloseRaised : Prop := ∃ k e, .called (.close k) (.error e) ∈ t

end Turns

/-- The run ends with the commit of this UPDATE of its job. -/
def EndsWith (job : Job) (t : Trace) (set : JobPatch) : Prop :=
  ∃ front, t = front ++ [.staged (.updateJob job.id set), .committed (.ok ())]

/-- Exactly the requested known channels are attempted, and the job ends SUCCEEDED only if all
that was requested was harvested, else PARTIAL with an entry for whatever was not. -/
structure HonestHarvest (job : Job) (t : Trace) : Prop where
  attempts : ∀ key, Attempted key t ↔ key ∈ job.input.channels.requested ∧ key ∈ connectorTypes
  ends : ∃ set, EndsWith job t set ∧
    ((job.patch set).status = .succeeded ∧
        (∀ key ∈ job.input.channels.requested, Harvested key t) ∨
      (job.patch set).status = .partialSuccess ∧
        ∀ key ∈ job.input.channels.requested, ¬Harvested key t →
          ∃ reason, (key, reason) ∈ (job.patch set).result.failures)

/-- What the report covers: every name of a list, if all are known, and the word `auto`. In
demo mode the one entry covers a channel of its own name. -/
def Covered (run : RunEnv) (channels : Channels) : Prop :=
  if run.env.settings.demoMode then ∀ key ∈ channels.requested, key = "all"
  else channels = .text "auto" ∨ ∃ keys, channels = .names keys ∧ ∀ key ∈ keys, key ∈ connectorTypes

section Inward

open Transaction.Tx

variable {run : RunEnv} {job : Job} {source : Source} {item : NormalizedSignal}

/-- Calls no connector. -/
abbrev Inward {α : Type} (p : DolphinVC.Tx α) : Prop := Calls (fun m => ¬m.Connector) p

theorem inward_evaluate {what : String} : Inward (call (.evaluate what)) :=
  Calls.call id

theorem inward_ensureCompany {env : Env} {id : Uuid} : Inward (ensureCompany env item id) := by
  refine Calls.bind (Calls.bind (Calls.query _) fun byDomain => ?_) fun company? => ?_
  · cases byDomain with
    | some company => exact Calls.pure _
    | none => exact Calls.query _
  · cases company? with
    | some company => exact Calls.pure _
    | none => exact Calls.bind (Calls.stage _) fun _ => Calls.bind Calls.flush fun _ => Calls.pure _

theorem inward_personOfIdentity {env : Env} {provider value : String} {id : Uuid} :
    Inward (personOfIdentity env provider value id) := by
  refine Calls.bind (Calls.query _) fun person? => ?_
  cases person? with
  | some person => exact Calls.pure _
  | none => exact Calls.bind (Calls.stage _) fun _ => Calls.bind Calls.flush fun _ => Calls.pure _

theorem inward_ensureSignalPerson {env : Env} {signalId id : Uuid} :
    Inward (ensureSignalPerson env item signalId id) := by
  unfold ensureSignalPerson
  cases bestHint item.identities with
  | none => exact Calls.pure _
  | some hint =>
      exact Calls.bind inward_personOfIdentity fun _ =>
        Calls.bind (Calls.bind (Calls.query _) fun _ =>
          Calls.ite (fun _ => Calls.pure _) fun _ => Calls.stage _) fun _ => Calls.pure _

theorem inward_ensureAffiliation {personId companyId : Uuid} {confidence : Rat} :
    Inward (ensureAffiliation personId companyId confidence) := by
  refine Calls.bind (Calls.query _) fun existing? => ?_
  cases existing? with
  | none => exact Calls.stage _
  | some existing => exact Calls.stage _

theorem inward_addFounderEvents {personId signalId : Uuid} {occurredAt : Timestamp}
    {events : List (String × Rat × Rat × String)} :
    Inward (addFounderEvents personId signalId occurredAt events) := by
  induction events with
  | nil => exact Calls.pure _
  | cons event events ih =>
      exact Calls.bind (Calls.query _) fun _ => Calls.ite (fun _ => ih) fun _ =>
        Calls.bind (Calls.stage _) fun _ => ih

theorem inward_storeFounderScore {personId : Uuid} {r : FounderScoreResult Rat}
    {now : Timestamp} : Inward (storeFounderScore personId r now) :=
  Calls.bind (Calls.query _) fun _ => Calls.bind (Calls.stage _) fun _ =>
    Calls.bind (Calls.query _) fun _ => Calls.bind (Calls.stage _) fun _ => Calls.flush

theorem inward_recomputeFounderScore {env : Env} {personId : Uuid} {now : Timestamp} :
    Inward (recomputeFounderScore env personId now) := by
  refine Calls.bind (Calls.query _) fun events => Calls.bind inward_evaluate fun _ => ?_
  cases computeFounderScore env.maths .standard (events.map FounderScoreEvent.scored) now with
  | none => exact Calls.throw _
  | some result => exact inward_storeFounderScore

theorem inward_recordFounderEvents {env : Env} {personId signalId : Uuid} {now : Timestamp} :
    Inward (recordFounderEvents env personId signalId item now) :=
  Calls.bind inward_addFounderEvents fun _ => Calls.bind Calls.flush fun _ =>
    inward_recomputeFounderScore

theorem inward_linkCandidates {env : Env} {person? : Option Person} {company : Company}
    {ids : CandidateIds} {now : Timestamp} :
    Inward (linkCandidates env person? company item ids now) := by
  refine Calls.bind (Calls.stage _) fun _ => ?_
  cases person? with
  | none => exact Calls.pure _
  | some person => exact Calls.bind inward_ensureAffiliation fun _ => inward_recordFounderEvents

theorem inward_recordChunk {env : Env} {orgId : Option Uuid} {sourceId : Uuid}
    {person? : Option Person} {companyId : Uuid} {ids : CandidateIds} :
    Inward (recordChunk env orgId item sourceId person? companyId ids) := by
  unfold recordChunk
  refine Calls.ite (fun _ => Calls.pure _) fun _ => ?_
  refine Calls.bind (Calls.query _) fun stored => ?_
  refine Calls.ite (fun _ => Calls.pure _) fun _ => ?_
  exact Calls.stage _

theorem inward_recordMemory {env : Env} {orgId : Option Uuid} {sourceId : Uuid}
    {person? : Option Person} {companyId : Uuid} {channel? : Option SourcingChannel}
    {ids : CandidateIds} :
    Inward (recordMemory env orgId item sourceId person? companyId channel? ids) := by
  refine Calls.bind inward_evaluate fun _ => Calls.bind inward_recordChunk fun _ => ?_
  cases channel? with
  | none => exact Calls.pure _
  | some channel =>
      exact Calls.bind (Calls.query _) fun _ =>
        Calls.ite (fun _ => Calls.pure _) fun _ => Calls.stage _

theorem inward_advanceChannel {channel? : Option SourcingChannel} :
    Inward (advanceChannel channel?) := by
  cases channel? with
  | none => exact Calls.pure _
  | some channel => exact Calls.bind (Calls.stage _) fun _ => Calls.pure _

theorem inward_resolveOpportunity {env : Env} {orgId : Option Uuid} {company : Company}
    {channel? : Option SourcingChannel} {id : Uuid} {now : Timestamp} :
    Inward (resolveOpportunity env orgId company item channel? id now) := by
  cases orgId with
  | none =>
      exact Calls.bind inward_advanceChannel fun _ => Calls.bind (Calls.stage _) fun _ =>
        Calls.bind Calls.flush fun _ => Calls.pure _
  | some orgId =>
      refine Calls.bind (Calls.query _) fun opportunity? => ?_
      cases opportunity? with
      | some o => exact Calls.bind Calls.flush fun _ => Calls.pure _
      | none =>
          exact Calls.bind inward_advanceChannel fun _ => Calls.bind (Calls.stage _) fun _ =>
            Calls.bind Calls.flush fun _ => Calls.pure _

theorem inward_resolveOutboundSignal {env : Env} {orgId : Option Uuid} {sourceId : Uuid}
    {channel? : Option SourcingChannel} {ids : CandidateIds} {now : Timestamp} :
    Inward (resolveOutboundSignal env orgId item sourceId channel? ids now) :=
  Calls.bind inward_evaluate fun _ => Calls.bind inward_ensureCompany fun _ =>
    Calls.bind inward_ensureSignalPerson fun _ => Calls.bind inward_linkCandidates fun _ =>
      Calls.bind inward_recordMemory fun _ =>
        Calls.bind inward_resolveOpportunity fun _ => Calls.pure _

theorem inward_ingestItem {channel : SourcingChannel} {seq index : Nat} :
    Inward (ingestItem run job source channel seq index item) :=
  Calls.bind inward_evaluate fun _ => Calls.bind (Calls.stage _) fun _ =>
    Calls.bind Calls.flush fun _ => Calls.bind inward_resolveOutboundSignal fun _ =>
      Calls.bind (Calls.stage _) fun _ => Calls.bind Calls.flush fun _ =>
        Calls.bind (Calls.stage _) fun _ => Calls.pure _

theorem inward_harvestItem {channel : SourcingChannel} {seq index : Nat} :
    Inward (harvestItem run job source channel seq index item) :=
  Calls.bind (Calls.query _) fun _ => Calls.ite (fun _ => Calls.pure _) fun _ =>
    Calls.bind inward_ingestItem fun _ => Calls.pure _

theorem inward_harvestItems {seq : Nat} {items : List NormalizedSignal} {index : Nat}
    {channel : SourcingChannel} {children : List Uuid} :
    Inward (harvestItems run job source seq items index channel children) := by
  induction items generalizing index channel children with
  | nil => exact Calls.pure _
  | cons item items ih =>
      refine Calls.bind (Calls.attempt inward_harvestItem) fun r => ?_
      cases r with
      | error e => exact Calls.pure _
      | ok child? =>
          cases child? with
          | none => exact ih
          | some child => exact ih

theorem inward_ensureSource {key : String} {seq : Nat} {source? : Option Source} :
    Inward (ensureSource run key seq source?) := by
  have channel {source : Source} : Inward (ensureChannel run source seq) := by
    refine Calls.bind (Calls.query _) fun channel? => ?_
    cases channel? with
    | some channel => exact Calls.pure _
    | none => exact Calls.bind (Calls.stage _) fun _ => Calls.pure _
  cases source? with
  | some source => exact channel
  | none => exact Calls.bind (Calls.stage _) fun _ => Calls.bind Calls.flush fun _ => channel

theorem inward_ingestSource {key : String} {seq : Nat} {source? : Option Source} :
    Inward (ingestSource run job key seq source?) := by
  refine Calls.bind (Calls.attempt inward_ensureSource) fun ensured => ?_
  cases ensured with
  | error e => exact Calls.pure _
  | ok channel =>
      refine Calls.bind inward_harvestItems ?_
      rintro ⟨children, ingested⟩
      cases ingested with
      | error e => exact Calls.pure _
      | ok u =>
          exact Calls.bind (Calls.attempt (Calls.bind (Calls.stage _) fun _ => Calls.commit))
            fun _ => Calls.pure _

theorem inward_degradeSource {seq : Nat} {source? : Option Source} {e : Exc} :
    Inward (degradeSource run seq source? e) := by
  cases source? with
  | none => exact Calls.pure _
  | some source => exact Calls.bind (Calls.stage _) fun _ => Calls.commit

end Inward

/-- No connector is closed. -/
def NoClose (t : Trace) : Prop := ∀ k r, .called (.close k) r ∉ t

section Parts

variable {t t₁ t₂ front rest body : Trace} {key k : String} {r : Except Exc Unit}

theorem noClose_of_inward {α : Type} {p : Tx α} {ended : Except Exc α} (hp : Inward p)
    (ht : Tx.Traces p t ended) : NoClose t := fun _ _ hmem => hp.traces ht hmem trivial

theorem noClose_append : NoClose (t₁ ++ t₂) ↔ NoClose t₁ ∧ NoClose t₂ := by
  simp only [NoClose, List.mem_append, not_or, forall_and]

theorem attempted_append : Attempted key (t₁ ++ t₂) ↔ Attempted key t₁ ∨ Attempted key t₂ := by
  simp only [Attempted, List.mem_append, exists_or]

theorem closeRaised_append : CloseRaised (t₁ ++ t₂) ↔ CloseRaised t₁ ∨ CloseRaised t₂ := by
  simp only [CloseRaised, List.mem_append, exists_or]

theorem NoClose.not_attempted (h : NoClose t) : ¬Attempted key t := fun ⟨r, hr⟩ => h key r hr

theorem NoClose.not_closeRaised (h : NoClose t) : ¬CloseRaised t := fun ⟨k, _, he⟩ => h k _ he

theorem NoClose.not_turnFailed (h : NoClose t) : ¬TurnFailed key t := by
  rintro ⟨front, r, rest, rfl, -⟩
  exact h key r (List.mem_append_right _ List.mem_cons_self)

theorem WentThrough.prepend (h : WentThrough key t₂) : WentThrough key (t₁ ++ t₂) := by
  obtain ⟨front, middle, id, now, rfl, hmiddle⟩ := h
  exact ⟨t₁ ++ front, middle, id, now, (List.append_assoc ..).symm, hmiddle⟩

theorem turnFailed_append (h : TurnFailed key (t₁ ++ t₂)) :
    TurnFailed key t₁ ∨ TurnFailed key t₂ := by
  obtain ⟨front, r, rest, heq, hfront⟩ := h
  obtain ⟨more, rfl, hrest⟩ | ⟨more, rfl, hrest⟩ := List.append_eq_append_iff.mp heq
  · exact .inr ⟨more, r, rest, hrest, fun went => hfront went.prepend⟩
  · cases more with
    | nil =>
        refine .inr ⟨[], r, rest, hrest.symm, fun went => hfront ?_⟩
        obtain ⟨front', middle, id, now, heq, -⟩ := went
        simp at heq
    | cons event more =>
        obtain ⟨rfl, rfl⟩ := List.cons_eq_cons.mp hrest
        exact .inl ⟨front, r, more, rfl, hfront⟩

/-- The only close of a turn is the one at its end. -/
theorem turnFailed_of_turn (hbody : NoClose body) (hrest : NoClose rest)
    (h : TurnFailed key (body ++ .called (.close k) r :: rest)) :
    key = k ∧ ¬WentThrough key body := by
  obtain ⟨front, answer, rest', heq, hfront⟩ := h
  obtain ⟨more, rfl, htail⟩ | ⟨more, rfl, htail⟩ := List.append_eq_append_iff.mp heq
  · cases more with
    | nil =>
        simp only [List.nil_append, List.cons_eq_cons, Event.called.injEq,
          Call.close.injEq] at htail
        exact ⟨htail.1.1.symm, by simpa using hfront⟩
    | cons event more =>
        obtain ⟨-, rfl⟩ := List.cons_eq_cons.mp htail
        exact absurd (List.mem_append_right _ List.mem_cons_self) (hrest key answer)
  · cases more with
    | nil =>
        simp only [List.nil_append, List.cons_eq_cons, Event.called.injEq,
          Call.close.injEq] at htail
        exact ⟨htail.1.1, by simpa using hfront⟩
    | cons event more =>
        obtain ⟨rfl, -⟩ := List.cons_eq_cons.mp htail
        exact absurd (List.mem_append_right _ List.mem_cons_self) (hbody key answer)

end Parts

/-- How one turn of the loop can end. -/
inductive Turn (key : String) (h : Harvest) : Trace → Except Exc Harvest → Prop where
  | raised {body : Trace} {e : Exc} (quiet : NoClose body) :
      Turn key h (body ++ [.called (.close key) (.error e)]) (.error e)
  | harvested {body rest : Trace} {h' : Harvest} (quiet : NoClose body) (after : NoClose rest)
      (went : WentThrough key body) (same : h'.failures = h.failures) :
      Turn key h (body ++ .called (.close key) (.ok ()) :: rest) (.ok h')
  | reported {body rest : Trace} {h' : Harvest} {reason : String} (quiet : NoClose body)
      (after : NoClose rest) (entry : h'.failures = h.failures ++ [(key, reason)]) :
      Turn key h (body ++ .called (.close key) (.ok ()) :: rest) (.ok h')

section Loop

variable {run : RunEnv} {job : Job} {source : Source} {key : String} {seq : Nat}
variable {source? : Option Source} {t : Trace}

theorem harvestItems_returns {items : List NormalizedSignal} {index : Nat}
    {channel : SourcingChannel} {children : List Uuid}
    {r : Except Exc (List Uuid × Except Exc Unit)}
    (ht : Tx.Traces (harvestItems run job source seq items index channel children) t r) :
    ∃ ended, r = .ok ended := by
  induction items generalizing index channel children t with
  | nil =>
      obtain ⟨-, rfl⟩ := ht
      exact ⟨_, rfl⟩
  | cons item items ih =>
      obtain ⟨t₁, ended, t₂, -, -, hrest⟩ := ht.attempt_split
      cases ended with
      | error e =>
          obtain ⟨-, rfl⟩ := hrest
          exact ⟨_, rfl⟩
      | ok child? =>
          cases child? with
          | none => exact ih hrest
          | some child => exact ih hrest

theorem degradeSource_returns {e : Exc} {r : Except Exc Unit}
    (ht : Tx.Traces (degradeSource run seq source? e) t r) (hok : ∀ event ∈ t, StatementOk event) :
    r = .ok () := by
  cases source? with
  | none => exact ht.2.symm
  | some source =>
      obtain ⟨rest, rfl, hcommit⟩ := ht.stage_split
      obtain rfl := Tx.traces_commit.mp hcommit
      exact hok (.committed r) (List.mem_cons_of_mem _ List.mem_cons_self)

/-- The `try` body ends by itself, and without an exception it ends in the commit. -/
theorem ingestSource_returns {r : Except Exc (List Uuid × Except Exc Unit)}
    (ht : Tx.Traces (ingestSource run job key seq source?) t r) :
    ∃ children ended, r = .ok (children, ended) ∧ (ended = .ok () →
      ∃ middle id now, t = middle ++ [.staged (.sourceOk id now), .committed (.ok ())]) := by
  obtain ⟨t₁, ensured, t₂, rfl, -, hrest⟩ := ht.attempt_split
  cases ensured with
  | error e =>
      obtain ⟨-, rfl⟩ := hrest
      exact ⟨[], .error e, rfl, nofun⟩
  | ok channel =>
      obtain ⟨e, he, -⟩ | ⟨t₂, ⟨children, ingested⟩, t₃, rfl, -, hend⟩ := hrest.split
      · obtain ⟨ended, hended⟩ := harvestItems_returns he
        cases hended
      cases ingested with
      | error e =>
          obtain ⟨-, rfl⟩ := hend
          exact ⟨children, .error e, rfl, nofun⟩
      | ok u =>
          obtain ⟨t₃, committed, t₄, rfl, hmark, rfl, rfl⟩ := hend.attempt_split
          obtain ⟨rest, rfl, hcommit⟩ := hmark.stage_split
          obtain rfl := Tx.traces_commit.mp hcommit
          refine ⟨children, committed, rfl, ?_⟩
          rintro rfl
          exact ⟨t₁ ++ t₂, (source?.getD (newSource run key seq)).id, run.now (.source seq),
            by simp only [List.append_assoc, List.append_nil]⟩

/-- After an exception the turn has a reason for its entry. -/
theorem degraded_returns {e : Exc} {children : List Uuid} {r : Except Exc (List Uuid × Option Exc)}
    (ht : Tx.Traces (do
      degradeSource run seq source? e
      return (children, some e)) t r) (hok : ∀ event ∈ t, StatementOk event) :
    NoClose t ∧ r = .ok (children, some e) := by
  obtain ⟨e', he, -⟩ | ⟨t₁, u, t₂, rfl, hdegrade, rfl, rfl⟩ := ht.split
  · cases degradeSource_returns he hok
  · rw [List.append_nil]
    exact ⟨noClose_of_inward inward_degradeSource hdegrade, rfl⟩

theorem harvestEnabled_returns {r : Except Exc (List Uuid × Option Exc)}
    (ht : Tx.Traces (harvestEnabled run job key seq source?) t r)
    (hok : ∀ event ∈ t, StatementOk event) :
    NoClose t ∧ ∃ children failure, r = .ok (children, failure) ∧
      (failure = none → WentThrough key t) := by
  obtain ⟨t₁, answered, t₂, rfl, hcall, hrest⟩ := ht.attempt_split
  obtain rfl := Tx.traces_call.mp hcall
  have asked : NoClose [.called (.harvest key) answered] := by
    intro k r h
    cases h with
    | tail _ h => cases h
  cases answered with
  | error e =>
      obtain ⟨quiet, rfl⟩ := degraded_returns hrest fun event h =>
        hok event (List.mem_append_right _ h)
      exact ⟨noClose_append.mpr ⟨asked, quiet⟩, [], some e, rfl, nofun⟩
  | ok u =>
      obtain ⟨e, he, -⟩ | ⟨t₂, ⟨children, ingested⟩, t₃, rfl, hingest, hend⟩ := hrest.split
      · obtain ⟨children, ended, h, -⟩ := ingestSource_returns he
        cases h
      have quiet := noClose_of_inward inward_ingestSource hingest
      cases ingested with
      | error e =>
          obtain ⟨after, rfl⟩ := degraded_returns hend fun event h =>
            hok event (List.mem_append_right _ (List.mem_append_right _ h))
          exact ⟨noClose_append.mpr ⟨asked, noClose_append.mpr ⟨quiet, after⟩⟩, children, some e,
            rfl, nofun⟩
      | ok u =>
          obtain ⟨rfl, rfl⟩ := hend
          rw [List.append_nil]
          refine ⟨noClose_append.mpr ⟨asked, quiet⟩, children, none, rfl, fun _ => ?_⟩
          obtain ⟨children', ended, h, went⟩ := ingestSource_returns hingest
          cases h
          obtain ⟨middle, id, now, rfl⟩ := went rfl
          exact ⟨[], middle, id, now, rfl, fun m r hm inside =>
            inward_ingestSource.traces hingest (List.mem_append_left _ hm) inside⟩

/-- An answered statement at the end of a turn. -/
theorem stepCommitted {w : Write} {h : Harvest} {r : Except Exc Harvest}
    (ht : Tx.Traces (do
      Tx.stage w
      Tx.commit
      return h : DolphinVC.Tx Harvest) t r) (hok : ∀ event ∈ t, StatementOk event) :
    NoClose t ∧ r = .ok h := by
  obtain ⟨rest, rfl, hrest⟩ := ht.stage_split
  have committed : ∀ c, .committed c ∈ rest → c = .ok () := fun c hc =>
    hok (.committed c) (List.mem_cons_of_mem _ hc)
  obtain ⟨e, he, -⟩ | ⟨t₁, u, t₂, rfl, hcommit, rfl, rfl⟩ := hrest.split
  · obtain rfl := Tx.traces_commit.mp he
    cases committed _ List.mem_cons_self
  · obtain rfl := Tx.traces_commit.mp hcommit
    refine ⟨fun k c hc => ?_, rfl⟩
    simp at hc

/-- Every turn ends in one of the three ways. -/
theorem harvestSource_turn {total : Nat} {h : Harvest} {r : Except Exc Harvest}
    (ht : Tx.Traces (harvestSource run job total key seq h) t r)
    (hok : ∀ event ∈ t, StatementOk event) : Turn key h t r := by
  obtain ⟨e, he, -⟩ | ⟨t₁, source?, t₂, rfl, hquery, hrest⟩ := ht.split
  · obtain ⟨answer, rfl, hanswer⟩ := he.query
    cases answer with
    | error e => cases hok _ List.mem_cons_self
    | ok db => cases hanswer
  obtain ⟨answer, rfl, -⟩ := hquery.query
  have asked : NoClose [.queried (answer.map fun _ => ())] := by
    intro k r h
    cases h with
    | tail _ h => cases h
  have hok := fun event h => hok event (List.mem_append_right _ h)
  by_cases henabled : run.enabled key
  · rw [if_neg (not_not_intro henabled)] at hrest
    obtain ⟨e, he, rfl⟩ | ⟨t₂, ⟨children, failure⟩, t₃, rfl, hturn, hend⟩ := hrest.split
    · obtain ⟨body, ended, closing, closed, rfl, hbody, hclose, hended⟩ := he.finally'
      obtain rfl := Tx.traces_call.mp hclose
      obtain ⟨quiet, children, failure, rfl, -⟩ := harvestEnabled_returns hbody fun event h =>
        hok event (List.mem_append_left _ h)
      obtain ⟨e, rfl, h⟩ | ⟨-, h⟩ := hended
      · cases h
        rw [← List.append_assoc]
        exact .raised (noClose_append.mpr ⟨asked, quiet⟩)
      · cases h
    · obtain ⟨body, ended, closing, closed, rfl, hbody, hclose, hended⟩ := hturn.finally'
      obtain rfl := Tx.traces_call.mp hclose
      obtain ⟨quiet, children', failure', rfl, went⟩ := harvestEnabled_returns hbody fun event h =>
        hok event (List.mem_append_left _ (List.mem_append_left _ h))
      obtain ⟨after, rfl⟩ := stepCommitted hend fun event h => hok event (List.mem_append_right _ h)
      obtain ⟨e, rfl, h⟩ | ⟨rfl, h⟩ := hended
      · cases h
      · cases h
        rw [List.append_assoc body, ← List.append_assoc]
        cases failure with
        | none =>
            exact .harvested (noClose_append.mpr ⟨asked, quiet⟩) after (went rfl).prepend
              (List.append_nil _)
        | some e => exact .reported (noClose_append.mpr ⟨asked, quiet⟩) after rfl
  · rw [if_pos henabled] at hrest
    obtain ⟨e, he, rfl⟩ | ⟨t₂, u, t₃, rfl, hclose, rfl, rfl⟩ := hrest.split
    · obtain rfl := Tx.traces_call.mp he
      exact .raised asked
    · obtain rfl := Tx.traces_call.mp hclose
      exact .reported asked (fun _ _ => List.not_mem_nil) rfl

/-- What the loop over the keys leaves behind when every connector was closed. -/
structure Accounted (keys : List String) (h : Harvest) (t : Trace) (h' : Harvest) : Prop where
  attempts : ∀ key, Attempted key t ↔ key ∈ keys
  closed : ¬CloseRaised t
  entries : ∀ entry ∈ h'.failures, entry ∈ h.failures ∨ entry.1 ∈ keys
  kept : ∀ entry ∈ h.failures, entry ∈ h'.failures
  reported : ∀ key, TurnFailed key t → ∃ reason, (key, reason) ∈ h'.failures

/-- The loop was left with an exception at a close. -/
def LeftAtClose (t : Trace) : Prop := ∃ front k e, t = front ++ [.called (.close k) (.error e)]

theorem LeftAtClose.prepend {t₁ t₂ : Trace} (h : LeftAtClose t₂) : LeftAtClose (t₁ ++ t₂) := by
  obtain ⟨front, k, e, rfl⟩ := h
  exact ⟨t₁ ++ front, k, e, (List.append_assoc ..).symm⟩

theorem Accounted.nil {h : Harvest} : Accounted [] h [] h where
  attempts key := by simp [Attempted]
  closed := by simp [CloseRaised]
  entries _ hentry := .inl hentry
  kept _ hentry := hentry
  reported key := by simp [TurnFailed]

theorem attempted_turn {body rest : Trace} {k : String} (hbody : NoClose body)
    (hrest : NoClose rest) :
    Attempted k (body ++ .called (.close key) (.ok ()) :: rest) ↔ k = key := by
  rw [attempted_append, or_iff_right hbody.not_attempted]
  constructor
  · rintro ⟨r, hr⟩
    cases hr with
    | head => rfl
    | tail _ hr => exact absurd hr (hrest k r)
  · rintro rfl
    exact ⟨.ok (), List.mem_cons_self⟩

theorem not_closeRaised_turn {body rest : Trace} (hbody : NoClose body) (hrest : NoClose rest) :
    ¬CloseRaised (body ++ .called (.close key) (.ok ()) :: rest) := by
  rw [closeRaised_append, or_iff_right hbody.not_closeRaised]
  rintro ⟨k, e, he⟩
  cases he with
  | tail _ he => exact hrest k _ he

/-- A turn that did not leave the loop accounts for its own key. -/
theorem Turn.accounted {h h' : Harvest} (ht : Turn key h t (.ok h')) : Accounted [key] h t h' := by
  cases ht with
  | harvested quiet after went same =>
      exact
        { attempts := fun k => by rw [attempted_turn quiet after, List.mem_singleton]
          closed := not_closeRaised_turn quiet after
          entries := fun _ hentry => .inl (same ▸ hentry)
          kept := fun _ hentry => same ▸ hentry
          reported := fun k hfailed => by
            obtain ⟨rfl, hwent⟩ := turnFailed_of_turn quiet after hfailed
            exact absurd went hwent }
  | @reported _ _ _ reason quiet after entry =>
      exact
        { attempts := fun k => by rw [attempted_turn quiet after, List.mem_singleton]
          closed := not_closeRaised_turn quiet after
          entries := fun e hentry => by
            rw [entry, List.mem_append, List.mem_singleton] at hentry
            refine hentry.imp id ?_
            rintro rfl
            exact List.mem_cons_self
          kept := fun _ hentry => entry ▸ List.mem_append_left _ hentry
          reported := fun k hfailed => by
            obtain ⟨rfl, -⟩ := turnFailed_of_turn quiet after hfailed
            exact ⟨reason, entry ▸ List.mem_append_right _ List.mem_cons_self⟩ }

theorem Accounted.append {keys keys' : List String} {h h₁ h₂ : Harvest} {t₁ t₂ : Trace}
    (a : Accounted keys h t₁ h₁) (b : Accounted keys' h₁ t₂ h₂) :
    Accounted (keys ++ keys') h (t₁ ++ t₂) h₂ where
  attempts key := by rw [attempted_append, a.attempts, b.attempts, List.mem_append]
  closed := by
    rw [closeRaised_append]
    exact not_or.mpr ⟨a.closed, b.closed⟩
  entries entry hentry := by
    rw [List.mem_append]
    cases b.entries entry hentry with
    | inl hentry => exact (a.entries entry hentry).imp id .inl
    | inr hkey => exact .inr (.inr hkey)
  kept entry hentry := b.kept entry (a.kept entry hentry)
  reported key hfailed := by
    cases turnFailed_append hfailed with
    | inl hfailed =>
        obtain ⟨reason, hentry⟩ := a.reported key hfailed
        exact ⟨reason, b.kept _ hentry⟩
    | inr hfailed => exact b.reported key hfailed

/-- Induction over the keys with one turn each. -/
theorem harvestSources_accounted {total : Nat} {keys : List String} {h : Harvest}
    {r : Except Exc Harvest} (ht : Tx.Traces (harvestSources run job total keys seq h) t r)
    (hok : ∀ event ∈ t, StatementOk event) :
    (LeftAtClose t ∧ ∃ e, r = .error e) ∨ ∃ h', r = .ok h' ∧ Accounted keys h t h' := by
  induction keys generalizing seq h t with
  | nil =>
      obtain ⟨rfl, rfl⟩ := ht
      exact .inr ⟨h, rfl, Accounted.nil⟩
  | cons key keys ih =>
      obtain ⟨e, he, rfl⟩ | ⟨t₁, h₁, t₂, rfl, hturn, hrest⟩ := ht.split
      · cases harvestSource_turn he hok with
        | raised quiet => exact .inl ⟨⟨_, _, _, rfl⟩, e, rfl⟩
      · have turn := harvestSource_turn hturn fun event h => hok event (List.mem_append_left _ h)
        cases ih hrest fun event h => hok event (List.mem_append_right _ h) with
        | inl hleft => exact .inl ⟨hleft.1.prepend, hleft.2⟩
        | inr haccounted =>
            obtain ⟨h', rfl, haccounted⟩ := haccounted
            exact .inr ⟨h', rfl, turn.accounted.append haccounted⟩

/-- How a harvest whose statements are answered can run. -/
theorem processHarvest_runs {r : Except Exc (List Uuid)}
    (ht : Tx.Traces (processHarvest run job) t r) (hok : ∀ event ∈ t, StatementOk event) :
    LeftAtClose t ∨ ∃ turns h, Accounted (harvestKeys run job) (Harvest.start run) turns h ∧
      t = .called (.evaluate "limit") (.ok ()) :: (turns ++
        [.staged (.updateJob job.id (job.changes (job.harvestDone h (run.now .finish)))),
          .committed (.ok ())]) := by
  obtain ⟨e, he, -⟩ | ⟨t₁, u, t₂, rfl, hlimit, hrest⟩ := ht.split
  · obtain rfl := Tx.traces_call.mp he
    cases hok _ List.mem_cons_self rfl
  obtain rfl := Tx.traces_call.mp hlimit
  have hok := fun event h => hok event (List.mem_append_right _ h)
  obtain ⟨e, he, -⟩ | ⟨t₂, h, t₃, rfl, hloop, hend⟩ := hrest.split
  · cases harvestSources_accounted he hok with
    | inl hleft => exact .inl hleft.1.prepend
    | inr haccounted =>
        obtain ⟨h', h, -⟩ := haccounted
        cases h
  · have hend' := fun event h => hok event (List.mem_append_right _ h)
    cases harvestSources_accounted hloop fun event h => hok event (List.mem_append_left _ h) with
    | inl hleft =>
        obtain ⟨-, e, he⟩ := hleft
        cases he
    | inr haccounted =>
        obtain ⟨h', heq, haccounted⟩ := haccounted
        obtain rfl := Except.ok.inj heq
        refine .inr ⟨t₂, h, haccounted, ?_⟩
        obtain ⟨rest, rfl, hlast⟩ := hend.stage_split
        obtain ⟨e, he, -⟩ | ⟨t₄, u, t₅, rfl, hcommit, rfl, -⟩ := hlast.split
        · obtain rfl := Tx.traces_commit.mp he
          cases hend' _ (List.mem_cons_of_mem _ List.mem_cons_self)
        · obtain rfl := Tx.traces_commit.mp hcommit
          rfl

end Loop

section Report

variable {run : RunEnv} {job : Job} {t : Trace}

theorem LeftAtClose.closeRaised (h : LeftAtClose t) : CloseRaised t := by
  obtain ⟨front, k, e, rfl⟩ := h
  exact ⟨k, e, List.mem_append_right _ List.mem_cons_self⟩

theorem LeftAtClose.not_endsWith (h : LeftAtClose t) (set : JobPatch) : ¬EndsWith job t set := by
  obtain ⟨front, k, e, rfl⟩ := h
  rintro ⟨front', heq⟩
  have last := congrArg List.getLast? heq
  simp at last

/-- What the job's copy says after the last UPDATE. -/
theorem patch_harvestDone (h : Harvest) (now : Timestamp) :
    (job.patch (job.changes (job.harvestDone h now))).status =
        (if h.failures.isEmpty then .succeeded else .partialSuccess) ∧
      (job.patch (job.changes (job.harvestDone h now))).result.failures = h.failures :=
  ⟨changed_getD .., congrArg JobResult.failures (changed_getD ..)⟩

theorem mem_harvestKeys {key : String} (h : key ∈ harvestKeys run job) : key ∈ connectorTypes := by
  unfold harvestKeys at h
  split at h
  · cases h
  · split at h
    · exact h
    · exact of_decide_eq_true (List.mem_filter.mp h).2

/-- No connector has a name of one character, so a loop over the characters of a text finds none. -/
theorem harvestKeys_text {s : String} (hs : s ≠ "auto") (hjob : job.input.channels = .text s) :
    harvestKeys run job = [] := by
  unfold harvestKeys
  split
  · rfl
  · rw [hjob, if_neg fun h => hs (Channels.text.inj h)]
    refine List.filter_eq_nil_iff.mpr fun key hkey => ?_
    obtain ⟨c, -, rfl⟩ := List.mem_map.mp hkey
    refine fun h => ?_
    have length : ∀ known ∈ connectorTypes, known.length ≠ 1 := by decide
    exact length _ (of_decide_eq_true h) (by simp)

/-- Under a covered request the keys of the loop are the requested connectors. -/
theorem mem_harvestKeys_iff (hcovered : Covered run job.input.channels) {key : String} :
    key ∈ harvestKeys run job ↔ key ∈ job.input.channels.requested ∧ key ∈ connectorTypes := by
  unfold Covered at hcovered
  unfold harvestKeys
  by_cases hdemo : run.env.settings.demoMode
  · rw [if_pos hdemo] at hcovered ⊢
    refine iff_of_false List.not_mem_nil fun ⟨hkey, hknown⟩ => ?_
    rw [hcovered key hkey] at hknown
    exact absurd hknown (by decide)
  · rw [if_neg hdemo] at hcovered ⊢
    obtain hauto | ⟨keys, hkeys, hknown⟩ := hcovered
    · rw [if_pos hauto, hauto]
      exact ⟨fun h => ⟨h, h⟩, And.right⟩
    · rw [hkeys, if_neg (fun h => nomatch h)]
      simp only [Channels.items, Channels.requested, List.mem_filter, decide_eq_true_eq]

/-- Every requested channel is in the loop, unless the entry of demo mode stands for it. -/
theorem mem_harvestKeys_of_covered (hcovered : Covered run job.input.channels) {key : String}
    (hkey : key ∈ job.input.channels.requested) :
    key ∈ harvestKeys run job ∨ ∃ reason, (key, reason) ∈ (Harvest.start run).failures := by
  by_cases hdemo : run.env.settings.demoMode
  · unfold Covered at hcovered
    rw [if_pos hdemo] at hcovered
    unfold Harvest.start
    rw [if_pos hdemo, hcovered key hkey]
    exact .inr ⟨_, List.mem_cons_self⟩
  · refine .inl ((mem_harvestKeys_iff hcovered).mpr ⟨hkey, ?_⟩)
    unfold Covered at hcovered
    rw [if_neg hdemo] at hcovered
    obtain hauto | ⟨keys, hkeys, hknown⟩ := hcovered
    · rw [hauto] at hkey
      exact hkey
    · rw [hkeys] at hkey
      exact hknown key hkey

theorem covered_of_accounted
    (h : ∀ key ∈ job.input.channels.requested,
      key ∈ harvestKeys run job ∨ ∃ reason, (key, reason) ∈ (Harvest.start run).failures) :
    Covered run job.input.channels := by
  unfold Covered
  by_cases hdemo : run.env.settings.demoMode
  · rw [if_pos hdemo]
    intro key hkey
    obtain hloop | ⟨reason, hentry⟩ := h key hkey
    · unfold harvestKeys at hloop
      rw [if_pos hdemo] at hloop
      cases hloop
    · unfold Harvest.start at hentry
      rw [if_pos hdemo] at hentry
      exact congrArg Prod.fst (List.mem_singleton.mp hentry)
  · rw [if_neg hdemo]
    have inLoop {key : String} (hkey : key ∈ job.input.channels.requested) :
        key ∈ harvestKeys run job := by
      obtain hloop | ⟨reason, hentry⟩ := h key hkey
      · exact hloop
      · unfold Harvest.start at hentry
        rw [if_neg hdemo] at hentry
        cases hentry
    cases hchannels : job.input.channels with
    | names keys =>
        refine .inr ⟨keys, rfl, fun key hkey => mem_harvestKeys (@inLoop key ?_)⟩
        rw [hchannels]
        exact hkey
    | text s =>
        by_cases hs : s = "auto"
        · exact .inl (by rw [hs])
        · have hmem : s ∈ harvestKeys run job :=
            inLoop (by simp [hchannels, Channels.requested, hs])
          rw [harvestKeys_text hs hchannels] at hmem
          cases hmem

/-- The trace of a harvest that was not left at a close, with the loop cut out. -/
def harvestTrace (run : RunEnv) (job : Job) (turns : Trace) (h : Harvest) : Trace :=
  .called (.evaluate "limit") (.ok ()) :: (turns ++
    [.staged (.updateJob job.id (job.changes (job.harvestDone h (run.now .finish)))),
      .committed (.ok ())])

section Accounted

variable {turns : Trace} {h : Harvest} {key : String}

theorem attempted_harvestTrace :
    Attempted key (harvestTrace run job turns h) ↔ Attempted key turns := by
  simp [Attempted, harvestTrace]

theorem closeRaised_harvestTrace :
    CloseRaised (harvestTrace run job turns h) ↔ CloseRaised turns := by
  simp [CloseRaised, harvestTrace]

theorem turnFailed_harvestTrace (hfailed : TurnFailed key (harvestTrace run job turns h)) :
    TurnFailed key turns := by
  have before : NoClose [.called (.evaluate "limit") (.ok ())] := by simp [NoClose]
  have after : NoClose
      [.staged (.updateJob job.id (job.changes (job.harvestDone h (run.now .finish)))),
        .committed (.ok ())] := by simp [NoClose]
  obtain hfailed | hfailed := @turnFailed_append [_] _ _ hfailed
  · exact absurd hfailed before.not_turnFailed
  obtain hfailed | hfailed := turnFailed_append hfailed
  · exact hfailed
  · exact absurd hfailed after.not_turnFailed

theorem endsWith_harvestTrace {set : JobPatch}
    (hends : EndsWith job (harvestTrace run job turns h) set) :
    set = job.changes (job.harvestDone h (run.now .finish)) := by
  obtain ⟨front, heq⟩ := hends
  unfold harvestTrace at heq
  rw [← List.cons_append] at heq
  cases (List.append_inj' heq rfl).2
  rfl

end Accounted

/-- A harvest whose statements are answered reports honestly exactly when the report covers the
request and every connector can be closed. -/
theorem harvest_honest_iff (run : RunEnv) (job : Job) {t : Trace} {r : Except Exc (List Uuid)}
    (ht : Tx.Traces (processHarvest run job) t r) (hok : ∀ event ∈ t, StatementOk event) :
    HonestHarvest job t ↔ Covered run job.input.channels ∧ ¬CloseRaised t := by
  obtain hleft | ⟨turns, h, accounted, rfl⟩ := processHarvest_runs ht hok
  · refine iff_of_false (fun honest => ?_) fun covered => covered.2 hleft.closeRaised
    obtain ⟨set, hends, -⟩ := honest.ends
    exact hleft.not_endsWith set hends
  change HonestHarvest job (harvestTrace run job turns h) ↔
    Covered run job.input.channels ∧ ¬CloseRaised (harvestTrace run job turns h)
  rw [closeRaised_harvestTrace, and_iff_left accounted.closed]
  obtain ⟨hstatus, hfailures⟩ := @patch_harvestDone job h (run.now .finish)
  constructor
  · rintro ⟨-, set, hends, hset⟩
    obtain rfl := endsWith_harvestTrace hends
    refine covered_of_accounted fun key hkey => ?_
    obtain ⟨hsucceeded, hall⟩ | ⟨-, hall⟩ := hset
    · exact .inl ((accounted.attempts key).mp (attempted_harvestTrace.mp (hall key hkey).1))
    · by_cases hloop : key ∈ harvestKeys run job
      · exact .inl hloop
      · obtain ⟨reason, hentry⟩ := hall key hkey fun harvested =>
          hloop ((accounted.attempts key).mp (attempted_harvestTrace.mp harvested.1))
        rw [hfailures] at hentry
        exact .inr ⟨reason, (accounted.entries _ hentry).resolve_right hloop⟩
  · intro hcovered
    refine ⟨fun key => ?_, _, ⟨_ :: turns, rfl⟩, ?_⟩
    · rw [attempted_harvestTrace, accounted.attempts, mem_harvestKeys_iff hcovered]
    have entry {key : String} (hkey : key ∈ job.input.channels.requested)
        (hmissed : ¬Harvested key (harvestTrace run job turns h)) :
        ∃ reason, (key, reason) ∈ h.failures := by
      obtain hloop | ⟨reason, hentry⟩ := mem_harvestKeys_of_covered hcovered hkey
      · have failed : TurnFailed key (harvestTrace run job turns h) := by
          by_contra hfailed
          exact hmissed ⟨attempted_harvestTrace.mpr ((accounted.attempts key).mpr hloop), hfailed⟩
        exact accounted.reported key (turnFailed_harvestTrace failed)
      · exact ⟨reason, accounted.kept _ hentry⟩
    rw [hstatus, hfailures]
    by_cases hempty : h.failures.isEmpty
    · refine .inl ⟨if_pos hempty, fun key hkey => ?_⟩
      by_contra hmissed
      obtain ⟨reason, hentry⟩ := entry hkey hmissed
      rw [List.isEmpty_iff.mp hempty] at hentry
      cases hentry
    · exact .inr ⟨if_neg hempty, fun key hkey hmissed => entry hkey hmissed⟩

/-- Only arXiv is configured. -/
def gorseRun : RunEnv where
  env := plainEnv
  analysis :=
    { parseDeck := fun _ => [], extractClaims := fun _ => [], scoreAxis := fun _ _ _ _ => ⟨0, 0, ""⟩
      thesisFit := fun _ _ => .ok (0, none), recommend := fun _ _ _ _ => ⟨.needsHuman, ""⟩ }
  now _ := 0
  id _ := 0
  enabled key := key = "arxiv"
  harvested _ := []

def gorseJob (channels : Channels) : Job where
  id := 7
  orgId := some 1
  kind := "ingest.harvest"
  status := .running
  input := { channels }
  createdAt := 0

/-- GitHub has no credentials and arXiv does not answer. -/
def gorseTrace : Trace :=
  let failures := [("github", "no_credentials"), ("arxiv", "ReadTimeout")]
  [.called (.evaluate "limit") (.ok ()), .queried (.ok ()), .called (.close "github") (.ok ()),
    .queried (.ok ()), .called (.harvest "arxiv") (.error (.raised "ReadTimeout" "")),
    .called (.close "arxiv") (.ok ()),
    .staged (.insertAgentStep (harvestStep (gorseJob (.names ["github", "arxiv"])) "arxiv" 2 2
      { failures })),
    .committed (.ok ()),
    .staged (.updateJob 7 ((gorseJob (.names ["github", "arxiv"])).changes
      (Job.harvestDone { failures } 0 (gorseJob (.names ["github", "arxiv"]))))),
    .committed (.ok ())]

theorem harvest_honest_unanswered :
    HonestHarvest (gorseJob (.names ["github", "arxiv"])) gorseTrace := by
  refine (harvest_honest_iff gorseRun _ (r := .ok []) ?_ ?_).mpr ⟨?_, ?_⟩
  · exact ⟨.ok (), _, rfl, .ok {}, _, rfl, .ok (), _, rfl, .ok {}, _, rfl, .error _, _, rfl,
      .ok (), _, rfl, _, rfl, .ok (), _, rfl, _, rfl, .ok (), _, rfl, rfl, rfl⟩
  · simp [gorseTrace, StatementOk]
  · exact .inr ⟨_, rfl, by decide⟩
  · simp [CloseRaised, gorseTrace]

/-- A request for one connector by its name ends in success with nothing attempted. -/
theorem named_channel_not_harvested :
    ¬∀ (run : RunEnv) (job : Job) (t : Trace) (r : Except Exc (List Uuid)),
      Tx.Traces (processHarvest run job) t r → (∀ event ∈ t, StatementOk event) →
        ¬CloseRaised t → HonestHarvest job t := by
  intro h
  have honest := h gorseRun (gorseJob (.text "github"))
    [.called (.evaluate "limit") (.ok ()),
      .staged (.updateJob 7 ((gorseJob (.text "github")).changes
        ((gorseJob (.text "github")).harvestDone {} 0))),
      .committed (.ok ())] (.ok [])
    ⟨.ok (), _, rfl, _, rfl, .ok (), _, rfl, rfl, rfl⟩ (by simp [StatementOk])
    (by simp [CloseRaised])
  have attempted := (honest.attempts "github").mpr ⟨by decide, by decide⟩
  simp [Attempted] at attempted

end Report

end DolphinVC
