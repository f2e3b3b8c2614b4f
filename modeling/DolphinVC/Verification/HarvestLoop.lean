import DolphinVC.Verification.PipelineWrites
import DolphinVC.Transaction.Segment

/-!
# A harvest around its items

What a harvest does besides its items is to keep books: rows of sources and channels, steps and
the job itself. An invariant that these statements keep is kept by every harvest whose items
keep it.
-/

namespace DolphinVC

open Relational Transaction Tx

/-- What a harvest writes around its items. -/
def Write.Around : Write → Prop
  | .insertSource _ | .insertChannel _ | .sourceOk _ _ | .sourceDegraded _ _ _
  | .insertAgentStep _ | .updateJob _ _ => True
  | _ => False

section Around

variable {run : RunEnv} {job : Job} {source : Source} {source? : Option Source} {key : String}
variable {seq : Nat}

theorem ensureSource_around : Stages Write.Around (ensureSource run key seq source?) := by
  have channel {source : Source} : Stages Write.Around (ensureChannel run source seq) := by
    refine Stages.bind (Stages.query _) fun channel? => ?_
    cases channel? with
    | some channel => exact Stages.pure _
    | none => exact Stages.bind (Stages.stage trivial) fun _ => Stages.pure _
  cases source? with
  | some source => exact channel
  | none =>
      exact Stages.bind (Stages.stage trivial) fun _ => Stages.bind Stages.flush fun _ => channel

theorem degradeSource_around {e : Exc} : Emits Write.Around (degradeSource run seq source? e) := by
  cases source? with
  | none => exact Emits.pure _
  | some source => exact Emits.bind (Emits.stage trivial) fun _ => Emits.commit

variable {C : Db → List Write → Prop} {N : Write → Prop} {J : Db → Session Write → Prop}
variable (inv : SessionInvariant backend C N J) (around : ∀ w : Write, w.Around → N w)
variable (item : ∀ key, ∀ item ∈ run.harvested key, ∀ (job : Job) (source : Source)
  (channel : SourcingChannel) (seq index : Nat),
    Keeps backend C J (harvestItem run job source channel seq index item))

include item in
theorem keeps_harvestItems {items : List NormalizedSignal} (hsub : items ⊆ run.harvested key)
    {index : Nat} {channel : SourcingChannel} {children : List Uuid} :
    Keeps backend C J (harvestItems run job source seq items index channel children) := by
  induction items generalizing index channel children with
  | nil => exact Keeps.pure _
  | cons signal items ih =>
      have hrest : items ⊆ run.harvested key := fun _ h => hsub (List.mem_cons_of_mem _ h)
      refine Keeps.bind (Keeps.attempt (item key signal (hsub List.mem_cons_self) _ _ _ _ _))
        fun r => ?_
      cases r with
      | error e => exact Keeps.pure _
      | ok child? =>
          cases child? with
          | none => exact ih hrest
          | some child => exact ih hrest

include inv around

theorem keeps_around {α : Type} {p : DolphinVC.Tx α} (h : Emits Write.Around p) :
    Keeps backend C J p := (h.weaken around).keeps inv

include item

theorem keeps_ingestSource : Keeps backend C J (ingestSource run job key seq source?) := by
  refine (keeps_around inv around ensureSource_around.emits).attempt.bind fun ensured => ?_
  cases ensured with
  | error e => exact Keeps.pure _
  | ok u =>
      refine Keeps.bind (keeps_harvestItems item (List.Subset.refl _)) ?_
      rintro ⟨children, ingested⟩
      cases ingested with
      | error e => exact Keeps.pure _
      | ok u =>
          exact keeps_around inv around (Emits.bind (Emits.attempt (Emits.bind
            (Emits.stage trivial) fun _ => Emits.commit)) fun _ => Emits.pure _)

theorem keeps_harvestEnabled : Keeps backend C J (harvestEnabled run job key seq source?) := by
  refine (Keeps.call _).attempt.bind fun answered => ?_
  cases answered with
  | error e => exact (keeps_around inv around degradeSource_around).bind fun _ => Keeps.pure _
  | ok u =>
      refine Keeps.bind (keeps_ingestSource inv around item) ?_
      rintro ⟨children, ingested⟩
      cases ingested with
      | error e => exact (keeps_around inv around degradeSource_around).bind fun _ => Keeps.pure _
      | ok u => exact Keeps.pure _

theorem keeps_harvestSources {total : Nat} {keys : List String} {h : Harvest} :
    Keeps backend C J (harvestSources run job total keys seq h) := by
  have step (key : String) (seq : Nat) (h : Harvest) :
      Keeps backend C J (harvestSource run job total key seq h) := by
    refine (Keeps.query _).bind fun _ => Keeps.ite (fun _ => (Keeps.call _).bind fun _ =>
      Keeps.pure _) fun _ => ?_
    refine Keeps.bind (Keeps.finally' (keeps_harvestEnabled inv around item) (Keeps.call _))
      fun _ => ?_
    exact keeps_around inv around (Emits.bind (Emits.stage trivial) fun _ =>
      Emits.bind Emits.commit fun _ => Emits.pure _)
  induction keys generalizing seq h with
  | nil => exact Keeps.pure _
  | cons key keys ih => exact Keeps.bind (step key seq h) fun _ => ih

/-- A run of a harvest job, with the handler of its failures. -/
theorem keeps_startHarvest (hkind : job.kind = "ingest.harvest") :
    Keeps backend C J (startJob run job) := by
  refine Keeps.bind (keeps_around inv around (Emits.stage trivial)) fun _ =>
    (Keeps.commit inv).bind fun _ => Keeps.tryCatch ?_ fun e =>
      keeps_around inv around (Emits.bind (Emits.stage trivial) fun _ => Emits.commit)
  refine Keeps.ite (fun _ => ?_) fun hne => absurd hkind hne
  refine Keeps.bind ?_ fun _ => Emits.keeps inv dispatchChildren_emits
  exact (Keeps.call _).bind fun _ => Keeps.bind (keeps_harvestSources inv around item) fun _ =>
    keeps_around inv around (Emits.bind (Emits.stage trivial) fun _ =>
      Emits.bind Emits.commit fun _ => Emits.pure _)

end Around

end DolphinVC
