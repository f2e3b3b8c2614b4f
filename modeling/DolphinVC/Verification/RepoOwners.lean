import DolphinVC.Services.Connectors
import DolphinVC.Transaction.View
import DolphinVC.Verification.HarvestLoop
import DolphinVC.Verification.HarvestedSignals
import DolphinVC.Verification.IndependentSources

/-!
# Repositories of different owners

A repository has no domain of its own, so its company is looked up by name, and the name is the
last part of `owner/repo`. In every run the company of a repository is the live one with the
normalized name of the repository, whoever owns it. Repositories of different owners are
different candidates exactly as long as their names differ.
-/

namespace DolphinVC

open Relational Transaction Transition

section Names

variable {env : Env}

/-- The name that a repository gives its company, normalized. -/
def nameKey (env : Env) (repo : String) : String :=
  normalizeName env (cleanName env (some repo) "Discovered repository")

def repoKey (env : Env) (title : Option String) : String :=
  normalizeName env (cleanName env (title.map afterLastSlash) "Discovered repository")

theorem repoKey_fullName {owner repo : String} (hrepo : '/' ∉ repo.toList) :
    repoKey env (some (owner ++ "/" ++ repo)) = nameKey env repo := by
  have hlast : afterLastSlash (owner ++ "/" ++ repo) = repo := by
    have htoList : (owner ++ "/" ++ repo).toList.reverse =
        repo.toList.reverse ++ '/' :: owner.toList.reverse := by
      simp [String.toList_append]
    have hfree : ∀ c ∈ repo.toList.reverse, decide (c ≠ '/') = true := by
      intro c hc
      refine decide_eq_true fun heq => hrepo ?_
      rwa [← heq, ← List.mem_reverse]
    rw [afterLastSlash, htoList, List.takeWhile_append_of_pos hfree, List.takeWhile_cons_of_neg
      (by simp), List.append_nil, List.reverse_reverse, String.ofList_toList]
  rw [repoKey, Option.map_some, hlast, nameKey]

/-- What GitHub's connector makes of a repository on GitHub's own host. -/
def FromGitHub (env : Env) (item : NormalizedSignal) : Prop :=
  ∃ (raw : GitHubItem) (fromIsoformat : String → Except Exc Timestamp) (now : Timestamp),
    raw.normalize env.sha256 fromIsoformat now = .ok item ∧
      (env.hostname (raw.htmlUrl.getD "")).map env.casefold = some "github.com"

/-- The signal has a title from which the name of its company is taken. -/
def Titled (kind : SignalKind) (title : Option String) : Prop :=
  kind = .repoActivity ∧ (title.filter (· ≠ "")).isSome

theorem FromGitHub.domain {item : NormalizedSignal} (h : FromGitHub env item) :
    companyDomain env item = none := by
  obtain ⟨raw, fromIsoformat, now, hitem, hhost⟩ := h
  unfold GitHubItem.normalize at hitem
  cases hobserved : DolphinVC.observedAt fromIsoformat raw.timestamp now with
  | error e =>
      rw [hobserved] at hitem
      cases hitem
  | ok observed =>
      rw [hobserved] at hitem
      cases hitem
      simp [companyDomain, hhost]

theorem FromGitHub.name {item : NormalizedSignal} (h : FromGitHub env item)
    (titled : Titled item.kind item.title) : normalizeName env (companyNameFromSignal env item) =
      repoKey env item.title := by
  obtain ⟨raw, fromIsoformat, now, hitem, -⟩ := h
  have hexplicit : item.companyName = none := by
    unfold GitHubItem.normalize at hitem
    cases hobserved : DolphinVC.observedAt fromIsoformat raw.timestamp now with
    | error e =>
        rw [hobserved] at hitem
        cases hitem
    | ok observed =>
        rw [hobserved] at hitem
        cases hitem
        rfl
  rw [companyNameFromSignal, hexplicit]
  simp only [Option.filter_none]
  rw [if_pos (show _ ∧ _ from titled), repoKey]

end Names

section Rows

variable {env : Env} {db db' : Db} {w : Write} {key : String} {company : Company}

/-- The live company with a normalized name; of several, the oldest. -/
def companyNamed (key : String) (db : Db) : Option Company :=
  db.companies.rows.find? fun c => c.normalizedName = key ∧ c.mergedIntoId = none

/-- The company of a repository is the one with the repository's name. -/
def RepoCompanies (env : Env) (db : Db) : Prop :=
  ∀ s ∈ db.signals, Titled s.kind s.title → ∀ id, s.companyId = some id →
    (companyNamed (repoKey env s.title) db).map Company.id = some id

/-- The statement attaches no signal to a company. -/
def Write.Detached : Write → Prop
  | .insertSignal row => row.companyId = none
  | .assignSignal _ _ _ => False
  | _ => True

theorem key_of_companyNamed (h : companyNamed key db = some company) :
    company.normalizedName = key := by
  have hfound := List.find?_some h
  exact (of_decide_eq_true hfound).1

theorem companies_apply (happly : db.apply w = .ok db') :
    (∃ row, w = .insertCompany row ∧ db.companies.insert? row = some db'.companies) ∨
      db'.companies = db.companies := by
  cases w with
  | insertCompany row =>
      obtain ⟨t, ht, rfl⟩ := map_eq_ok.mp happly
      exact Or.inl ⟨row, rfl, (insertRow_eq_ok.mp ht).2⟩
  | refused e => cases happly
  | _ =>
      simp only [Db.apply, map_eq_ok, ite_error_eq_ok, Except.ok.injEq] at happly
      first
      | (subst happly; exact Or.inr rfl)
      | (obtain ⟨t, -, rfl⟩ := happly; exact Or.inr rfl)
      | (obtain ⟨-, t, -, rfl⟩ := happly; exact Or.inr rfl)

/-- No statement takes a name from the company that has it. -/
theorem companyNamed_apply (h : companyNamed key db = some company)
    (happly : db.apply w = .ok db') : companyNamed key db' = some company := by
  obtain ⟨row, -, hins⟩ | heq := companies_apply happly
  · rw [companyNamed, (Table.insert?_eq_some_iff.mp hins).2, List.find?_append]
    rw [companyNamed] at h
    rw [h]
    rfl
  · rw [companyNamed, heq]
    exact h

/-- A statement that attaches no signal leaves every company where it is found. -/
theorem RepoCompanies.apply (h : RepoCompanies env db) (hw : w.Detached)
    (happly : db.apply w = .ok db') : RepoCompanies env db' := by
  have kept {s : Signal} (hs : s ∈ db.signals) (titled : Titled s.kind s.title) {id : Uuid}
      (hid : s.companyId = some id) :
      (companyNamed (repoKey env s.title) db').map Company.id = some id := by
    have hnamed := h s hs titled id hid
    obtain ⟨company, hcompany, hcid⟩ := Option.map_eq_some_iff.mp hnamed
    rw [companyNamed_apply hcompany happly, Option.map_some, hcid]
  intro s hs titled id hid
  obtain ⟨row, rfl, hins⟩ | ⟨signalId, companyId, personId, rfl, -⟩ | ⟨-, heq⟩ :=
    signals_apply happly
  · obtain hold | rfl := (Table.mem_insert? hins).mp hs
    · exact kept hold titled hid
    · have hnone : s.companyId = none := hw
      rw [hnone] at hid
      cases hid
  · exact hw.elim
  · exact kept (heq ▸ hs) titled hid

/-- The signal of the item is stored, and the company is the one that goes by its name. -/
structure Placed (env : Env) (item : NormalizedSignal) (signalId : Uuid) (company : Company)
    (db : Db) : Prop where
  stored : ∃ s ∈ db.signals, s.id = signalId ∧ s.kind = item.kind ∧ s.title = item.title
  named : Titled item.kind item.title → companyNamed (repoKey env item.title) db = some company

theorem stored_apply {item : NormalizedSignal} {signalId : Uuid} (hw : w.Detached)
    (h : ∃ s ∈ db.signals, s.id = signalId ∧ s.kind = item.kind ∧ s.title = item.title)
    (happly : db.apply w = .ok db') :
    ∃ s ∈ db'.signals, s.id = signalId ∧ s.kind = item.kind ∧ s.title = item.title := by
  obtain ⟨s, hs, hsame⟩ := h
  obtain ⟨row, rfl, hins⟩ | ⟨target, companyId, personId, rfl, -⟩ | ⟨-, heq⟩ :=
    signals_apply happly
  · exact ⟨s, (Table.mem_insert? hins).mpr (Or.inl hs), hsame⟩
  · exact hw.elim
  · exact ⟨s, heq ▸ hs, hsame⟩

theorem Placed.apply {item : NormalizedSignal} {signalId : Uuid}
    (h : Placed env item signalId company db) (hw : w.Detached) (happly : db.apply w = .ok db') :
    Placed env item signalId company db' where
  stored := stored_apply hw h.stored happly
  named titled := companyNamed_apply (h.named titled) happly

/-- Attaching the signal to the company that goes by its name -/
theorem RepoCompanies.assign {item : NormalizedSignal} {signalId : Uuid} {personId : Option Uuid}
    (h : RepoCompanies env db) (placed : Placed env item signalId company db)
    (happly : db.apply (.assignSignal signalId company.id personId) = .ok db') :
    RepoCompanies env db' := by
  obtain ⟨row, hw, -⟩ | ⟨target, companyId, person?, hw, heq⟩ | ⟨htarget, -⟩ :=
    signals_apply happly
  · cases hw
  · cases hw
    intro s hs titled id hid
    have hcompanies (key : String) : companyNamed key db' = companyNamed key db := by
      obtain ⟨row, hw, -⟩ | hsame := companies_apply happly
      · cases hw
      · rw [companyNamed, hsame, companyNamed]
    rw [hcompanies]
    rw [heq] at hs
    obtain ⟨s₀, hs₀, rfl⟩ := Table.mem_update.mp hs
    by_cases htarget : s₀.id = signalId
    · rw [if_pos htarget] at titled hid ⊢
      obtain ⟨stored, hstored, hstoredId, hkind, htitle⟩ := placed.stored
      obtain rfl := Table.eq_of_key hs₀ hstored (htarget.trans hstoredId.symm)
      have hnamed := placed.named (hkind ▸ htitle ▸ titled)
      rw [← htitle] at hnamed
      rw [← hid]
      exact congrArg (Option.map Company.id) hnamed
    · rw [if_neg htarget] at titled hid ⊢
      exact h s₀ hs₀ titled id hid
  · exact absurd rfl htarget

end Rows

section Sessions

open Tx

variable {env : Env} {run : RunEnv} {job : Job} {item : NormalizedSignal} {source : Source}
variable {company : Company} {ids : CandidateIds} {now : Timestamp} {signalId : Uuid}

theorem detached_invariant (env : Env) :
    SessionInvariant backend (backend.Preserved (RepoCompanies env)) Write.Detached
      fun db s => s.Foresees backend (RepoCompanies env) (RepoCompanies env) db :=
  preserved_invariant fun _ _ _ hw h happly => h.apply hw happly

/-- The item's signal is stored and waits for its company. -/
def Waiting (env : Env) (item : NormalizedSignal) (signalId : Uuid) (db : Db) : Prop :=
  RepoCompanies env db ∧
    ∃ s ∈ db.signals, s.id = signalId ∧ s.kind = item.kind ∧ s.title = item.title

/-- The company of the item's signal is decided. -/
def Decided (env : Env) (item : NormalizedSignal) (signalId : Uuid) (company : Company) (db : Db) :
    Prop := RepoCompanies env db ∧ Placed env item signalId company db

theorem Decided.apply {db db' : Db} {w : Write} (h : Decided env item signalId company db)
    (hw : w.Detached) (happly : db.apply w = .ok db') : Decided env item signalId company db' :=
  ⟨h.1.apply hw happly, h.2.apply hw happly⟩

/-- What is looked up for a repository is the company that goes by its name. -/
theorem findLiveCompany_finds (hitem : item.kind = .repoActivity → FromGitHub env item) :
    Foresight backend (RepoCompanies env)
      (fun db s => s.Sees backend (RepoCompanies env) (Waiting env item signalId) db)
      (findLiveCompany env item)
      fun company? db s => s.Sees backend (RepoCompanies env)
        (fun v => Waiting env item signalId v ∧
          (Titled item.kind item.title → companyNamed (repoKey env item.title) v = company?))
        db := by
  refine (Foresight.query (fun _ h => h.1) _).bind fun byDomain => ?_
  cases byDomain with
  | some company =>
      refine Foresight.pure fun db s h => h.mono fun v hv => ⟨hv.1, fun titled => ?_⟩
      rw [(hitem titled.1).domain] at hv
      cases hv.2
  | none =>
      refine Foresight.consequence (Foresight.query (fun _ h => h.1.1) _) (fun _ _ h => h)
        fun company? db s h => h.mono fun v hv => ⟨hv.1.1, fun titled => ?_⟩
      rw [(hitem titled.1).name titled] at hv
      exact hv.2

/-- The company of a repository goes by its name, found or new. -/
theorem ensureCompany_decides {id : Uuid}
    (hitem : item.kind = .repoActivity → FromGitHub env item) :
    Foresight backend (RepoCompanies env)
      (fun db s => s.Sees backend (RepoCompanies env) (Waiting env item signalId) db)
      (ensureCompany env item id)
      fun company db s => s.Foresees backend (RepoCompanies env)
        (Decided env item signalId company) db := by
  refine (findLiveCompany_finds hitem).bind fun company? => ?_
  cases company? with
  | some company =>
      exact Foresight.pure fun db s h =>
        (h.mono fun v hv => ⟨hv.1.1, ⟨hv.1.2, hv.2⟩⟩ : s.Sees _ _ _ db).1
  | none =>
      refine ((Foresight.stage fun v v' hv happly => ?_).consequence (fun db s h => h.1)
        fun _ _ _ h => h).bind fun _ => Foresight.flush.bind fun _ =>
          Foresight.pure fun _ _ h => h.1
      have hw : Write.Detached (.insertCompany
          { id, name := companyNameFromSignal env item
            normalizedName := normalizeName env (companyNameFromSignal env item)
            domain := companyDomain env item }) := trivial
      refine ⟨hv.1.1.apply hw happly, stored_apply hw hv.1.2 happly, fun titled => ?_⟩
      obtain ⟨t, ht, rfl⟩ := map_eq_ok.mp happly
      have hrows := (Table.insert?_eq_some_iff.mp (insertRow_eq_ok.mp ht).2).2
      have hmissed := hv.2 titled
      rw [companyNamed] at hmissed ⊢
      rw [hrows, List.find?_append, hmissed]
      simp [(hitem titled.1).name titled]

/-- Statements that attach no signal leave the decision. -/
theorem decided_of_stages {α : Type} {p : DolphinVC.Tx α} (h : Stages Write.Detached p) :
    Foresight backend (RepoCompanies env)
      (fun db s => s.Foresees backend (RepoCompanies env) (Decided env item signalId company) db) p
      fun _ db s => s.Foresees backend (RepoCompanies env) (Decided env item signalId company) db :=
  h.foresight (fun _ h => h.1) fun _ _ _ hw hv happly => hv.apply hw happly

theorem kept_of_stages {α : Type} {p : DolphinVC.Tx α} (h : Stages Write.Detached p) :
    Foresight backend (RepoCompanies env)
      (fun db s => s.Foresees backend (RepoCompanies env) (RepoCompanies env) db) p
      fun _ db s => s.Foresees backend (RepoCompanies env) (RepoCompanies env) db :=
  h.foresight (fun _ h => h) fun _ _ _ hw hv happly => hv.apply hw happly

theorem Write.OffSignals.detached {w : Write} (h : w.OffSignals) : w.Detached := by
  cases w with
  | insertSignal row => exact absurd rfl h
  | assignSignal id companyId personId => exact absurd rfl h
  | _ => trivial

theorem detached_of_candidate {α : Type} {p : DolphinVC.Tx α} (h : Stages Write.Candidate p) :
    Stages Write.Detached p := h.weaken fun _ hw => hw.elsewhere.offSignals.detached

/-- The statement attaches signals to the person and the company only, and makes no one else a
founder, and of nothing else. -/
def Write.Founding (person? : Option Uuid) (companyId : Uuid) : Write → Prop
  | .assignSignal _ assigned person => assigned = companyId ∧ person = person?
  | .insertAffiliation row => person? = some row.personId ∧ row.companyId = companyId
  | .confirmFounder personId founded _ _ => person? = some personId ∧ founded = companyId
  | _ => True

theorem Write.Scoring.founding {w : Write} {person? : Option Uuid} {companyId : Uuid}
    (h : w.Scoring) : w.Founding person? companyId := by
  cases w with
  | _ => first | exact trivial | exact h.elim

/-- The founder link of a signal joins its own person to its own company. -/
theorem linkCandidates_founding {person? : Option Person} :
    Stages (Write.Founding (person?.map Person.id) company.id)
      (linkCandidates env person? company item ids now) := by
  refine Stages.bind (Stages.stage ⟨rfl, rfl⟩) fun _ => ?_
  cases person? with
  | none => exact Stages.pure _
  | some person =>
      refine Stages.bind (Stages.bind (Stages.query _) fun existing? => ?_) fun _ =>
        recordFounderEvents_stages.weaken fun _ hw => hw.founding
      cases existing? with
      | none => exact Stages.stage ⟨rfl, rfl⟩
      | some existing => exact Stages.stage ⟨rfl, rfl⟩

theorem linkCandidates_attaches {person? : Option Person} :
    Foresight backend (RepoCompanies env)
      (fun db s => s.Foresees backend (RepoCompanies env) (Decided env item ids.signal company) db)
      (linkCandidates env person? company item ids now)
      fun _ db s => s.Foresees backend (RepoCompanies env) (RepoCompanies env) db := by
  refine Foresight.bind (Foresight.stage fun v v' hv happly => hv.1.assign hv.2 happly) fun _ => ?_
  exact kept_of_stages (detached_of_candidate (candidate_of_linking linkPerson_stages))

theorem resolveOutboundSignal_attaches {orgId : Option Uuid} {sourceId : Uuid}
    {channel? : Option SourcingChannel} (hitem : item.kind = .repoActivity → FromGitHub env item) :
    Foresight backend (RepoCompanies env)
      (fun db s => s.Sees backend (RepoCompanies env) (Waiting env item ids.signal) db)
      (resolveOutboundSignal env orgId item sourceId channel? ids now)
      fun _ db s => s.Foresees backend (RepoCompanies env) (RepoCompanies env) db :=
  (Foresight.call fun _ _ h => (h.mono fun _ hv => hv.1).1).bind fun _ =>
    (ensureCompany_decides hitem).bind fun _ =>
      (decided_of_stages (detached_of_candidate ensureSignalPerson_stages)).bind fun _ =>
        linkCandidates_attaches.bind fun _ =>
          kept_of_stages (Stages.bind (detached_of_candidate
            (candidate_of_linking recordMemory_stages)) fun _ =>
              Stages.bind (resolveOpportunity_stages (fun _ _ _ => trivial) (fun _ => trivial)
                fun _ => trivial) fun _ => Stages.pure _)

/-- An item of a harvest, repository on GitHub or not, keeps the companies of repositories. -/
theorem harvestItem_attaches (run : RunEnv) {channel : SourcingChannel} {seq index : Nat}
    (hitem : item.kind = .repoActivity → FromGitHub run.env item) :
    Keeps backend (backend.Preserved (RepoCompanies run.env))
      (fun db s => s.Foresees backend (RepoCompanies run.env) (RepoCompanies run.env) db)
      (harvestItem run job source channel seq index item) := by
  refine (Keeps.query _).bind fun _ => Keeps.ite (fun _ => Keeps.pure _) fun _ =>
    Keeps.bind (Foresight.keeps ?_) fun _ => Keeps.pure _
  refine (Foresight.call fun _ _ h => h).bind fun _ =>
    Foresight.bind (Foresight.stage
      (G := Waiting run.env item (candidateIds run seq index).signal) fun v v' hv happly => ?_)
        fun _ => Foresight.flush.bind fun _ =>
          (resolveOutboundSignal_attaches hitem).bind fun candidate => kept_of_stages ?_
  · have hw : Write.Detached (.insertSignal
        (newSignal job source (candidateIds run seq index).signal item)) := rfl
    refine ⟨hv.apply hw happly, ?_⟩
    obtain ⟨t, ht, rfl⟩ := map_eq_ok.mp happly
    exact ⟨_, (Table.mem_insert? (insertRow_eq_ok.mp ht).2).mpr (Or.inr rfl), rfl, rfl, rfl⟩
  · exact Stages.bind (Stages.stage trivial) fun _ => Stages.bind Stages.flush fun _ =>
      Stages.bind (Stages.stage trivial) fun _ => Stages.pure _

end Sessions

section System

open Tx

variable {env : Env} {db : Db} {s : DealState}

/-- A worker harvests repositories of GitHub's host only, as its connector hands them on. -/
def OnGitHub (env : Env) (_ : DealState) : DealEvent → Prop
  | .deliver run _ => run.env = env ∧ ∀ key, ∀ item ∈ run.harvested key,
      item.kind = .repoActivity → FromGitHub env item
  | _ => True

theorem detached_of_around (w : Write) (h : w.Around) : w.Detached := by
  cases w with
  | _ => first | exact h.elim | trivial

theorem processJob_attaches {run : RunEnv} (jobId : Uuid)
    (hitems : ∀ key, ∀ item ∈ run.harvested key,
      item.kind = .repoActivity → FromGitHub run.env item) :
    Keeps backend (backend.Preserved (RepoCompanies run.env))
      (fun db s => s.Foresees backend (RepoCompanies run.env) (RepoCompanies run.env) db)
      (processJob run jobId) := by
  have inv := detached_invariant run.env
  refine (Keeps.query _).bind fun job? => ?_
  cases job? with
  | none => exact Keeps.pure _
  | some job =>
      refine Keeps.ite (fun _ => Keeps.pure _) fun guard => ?_
      by_cases hkind : job.kind = "ingest.harvest"
      · exact keeps_startHarvest inv detached_of_around
          (fun key item hitem _ _ _ _ _ => harvestItem_attaches run (hitems key item hitem)) hkind
      · exact Emits.keeps inv ((startJob_ofAnalysis guard hkind).weaken fun _ hw =>
          Write.OffSignals.detached hw.steady.1)

/-- Every event keeps the companies of repositories, and so does what is left of the job runs. -/
theorem repoCompanies_step (a : DealEvent) (hb : s.Blocks (backend.Preserved (RepoCompanies env)))
    (h : RepoCompanies env s.db) (hc : OnGitHub env s a) :
    (dealStep env s a).Blocks (backend.Preserved (RepoCompanies env)) ∧
      RepoCompanies env (dealStep env s a).db := by
  have alone {α : Type} {p : DolphinVC.Tx α} (hp : Emits Write.OffSignals p) :
      RepoCompanies env (p.atomically backend s.db).2 :=
    Commits.atomically (I := RepoCompanies env) (hp.commits Journal.all_empty)
      (fun _ _ _ hw hdb happly => hdb.apply (Write.OffSignals.detached hw) happly) h
  constructor
  · refine blocks_step_of hb a ?_
    rintro run jobId rfl db
    obtain ⟨rfl, hitems⟩ := hc
    exact (processJob_attaches jobId hitems db {} ((detached_invariant run.env).clean db [])).mono
      fun _ _ _ _ => trivial
  · cases a with
    | request credentials d r => exact alone ((serve_writes r).weaken fun _ hw => hw.1)
    | auth r d => exact alone ((auth_writes r).weaken fun _ hw => hw.target_ne.2.2.2)
    | reap now => exact alone (reapStaleJobs_queues.weaken fun _ hw => hw.offSignals)
    | deliver run jobId => exact h
    | run i faults =>
        obtain heq | ⟨ws, -, hpreserved, happly⟩ := run_cases env hb i faults
        · rw [heq]
          exact h
        · exact hpreserved _ happly h

/-- The signal is about a repository of the owner. -/
structure Signal.IsRepo (s : Signal) (owner repo : String) : Prop where
  kind : s.kind = .repoActivity
  title : s.title = some (owner ++ "/" ++ repo)
  owner : '/' ∉ owner.toList
  repo : '/' ∉ repo.toList

/-- Two repositories of different owners that are attached to companies. -/
structure Rivals (db : Db) (s₁ s₂ : Signal) (repo₁ repo₂ : String) (c₁ c₂ : Uuid) : Prop where
  stored₁ : s₁ ∈ db.signals
  stored₂ : s₂ ∈ db.signals
  owners : ∃ owner₁ owner₂, s₁.IsRepo owner₁ repo₁ ∧ s₂.IsRepo owner₂ repo₂ ∧ owner₁ ≠ owner₂
  company₁ : s₁.companyId = some c₁
  company₂ : s₂.companyId = some c₂

/-- The company of a repository is the one with the name of the repository. -/
theorem RepoCompanies.of_repo {signal : Signal} {owner repo : String} {companyId : Uuid}
    (h : RepoCompanies env db) (hs : signal ∈ db.signals) (hrepo : signal.IsRepo owner repo)
    (hid : signal.companyId = some companyId) :
    (companyNamed (nameKey env repo) db).map Company.id = some companyId := by
  have titled : Titled signal.kind signal.title := by
    refine ⟨hrepo.kind, ?_⟩
    have hne : owner ++ "/" ++ repo ≠ "" := by
      intro hempty
      have hlength := congrArg String.length hempty
      simp at hlength
    simp [hrepo.title, hne]
  have hnamed := h signal hs titled companyId hid
  rwa [hrepo.title, repoKey_fullName hrepo.repo] at hnamed

/-- Two repositories have one company exactly if they have one name. -/
theorem company_eq_iff {s₁ s₂ : Signal} {repo₁ repo₂ : String} {c₁ c₂ : Uuid}
    (h : RepoCompanies env db) (rivals : Rivals db s₁ s₂ repo₁ repo₂ c₁ c₂) :
    c₁ = c₂ ↔ nameKey env repo₁ = nameKey env repo₂ := by
  obtain ⟨owner₁, owner₂, hrepo₁, hrepo₂, -⟩ := rivals.owners
  have h₁ := h.of_repo rivals.stored₁ hrepo₁ rivals.company₁
  have h₂ := h.of_repo rivals.stored₂ hrepo₂ rivals.company₂
  constructor
  · rintro rfl
    obtain ⟨company₁, hfound₁, hid₁⟩ := Option.map_eq_some_iff.mp h₁
    obtain ⟨company₂, hfound₂, hid₂⟩ := Option.map_eq_some_iff.mp h₂
    have hsame : company₁ = company₂ := Table.eq_of_key (List.mem_of_find?_eq_some hfound₁)
      (List.mem_of_find?_eq_some hfound₂) (hid₁.trans hid₂.symm)
    rw [← key_of_companyNamed hfound₁, hsame, key_of_companyNamed hfound₂]
  · intro hkey
    rw [hkey, h₂] at h₁
    exact (Option.some.inj h₁).symm

/-- Every run keeps the companies of repositories. -/
theorem repoCompanies_along {events : List DealEvent}
    (unresolved : ∀ s ∈ db.signals, s.companyId = none)
    (run : Meets (dealStep env) (OnGitHub env) { db } events) :
    Along (dealStep env) (fun s => RepoCompanies env s.db) { db } events := by
  have start : RepoCompanies env db := by
    intro s hs _ id hid
    rw [unresolved s hs] at hid
    cases hid
  have keep : Along (dealStep env) (fun s =>
      s.Blocks (backend.Preserved (RepoCompanies env)) ∧ RepoCompanies env s.db) { db } events :=
    along_of_meets (fun _ a hI hc => repoCompanies_step a hI.1 hI.2 hc) ⟨nofun, start⟩ run
  exact keep.mono fun _ hI => hI.2

/-- The row makes the person of the signal a founder of the company. -/
structure Affiliation.Founds (a : Affiliation) (s : Signal) (companyId : Uuid) : Prop where
  person : s.personId = some a.personId
  company : a.companyId = companyId
  founder : a.isFounder = true

/-- The row that makes an owner a founder of the repository's company makes the owner no founder
of the company of another owner's repository. -/
def FoundersApart (db : Db) : Prop :=
  ∀ s₁ s₂ repo₁ repo₂ c₁ c₂, Rivals db s₁ s₂ repo₁ repo₂ c₁ c₂ →
    ∀ a ∈ db.affiliations, a.Founds s₁ c₁ → ¬ a.Founds s₁ c₂

/-- The repositories that made an owner a founder have names of their own. -/
def FoundersNamesApart (env : Env) (db : Db) : Prop :=
  ∀ s₁ s₂ repo₁ repo₂ c₁ c₂, Rivals db s₁ s₂ repo₁ repo₂ c₁ c₂ →
    ∀ a ∈ db.affiliations, a.Founds s₁ c₁ → nameKey env repo₁ ≠ nameKey env repo₂

/-- In every run an owner is made a founder of the own company only, exactly as long as the
repositories that did so have names of their own. -/
theorem founders_apart_iff (env : Env) (db : Db) (events : List DealEvent)
    (unresolved : ∀ s ∈ db.signals, s.companyId = none)
    (run : Meets (dealStep env) (OnGitHub env) { db } events) :
    Along (dealStep env) (fun s => FoundersApart s.db ↔ FoundersNamesApart env s.db) { db }
      events := by
  refine (repoCompanies_along unresolved run).mono fun s hI => ?_
  constructor
  · intro h s₁ s₂ repo₁ repo₂ c₁ c₂ rivals a ha founds hname
    have hsame := (company_eq_iff hI rivals).mpr hname
    exact h s₁ s₂ repo₁ repo₂ c₁ c₂ rivals a ha founds (hsame ▸ founds)
  · intro h s₁ s₂ repo₁ repo₂ c₁ c₂ rivals a ha founds other
    have hsame : c₁ = c₂ := founds.company.symm.trans other.company
    exact h s₁ s₂ repo₁ repo₂ c₁ c₂ rivals a ha founds ((company_eq_iff hI rivals).mp hsame)

end System

section Tarn

end Tarn

end DolphinVC
