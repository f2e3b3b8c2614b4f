import DolphinVC.Transition.Run
import DolphinVC.Services.Applications
import DolphinVC.Verification.Credentials
import DolphinVC.Verification.Signups
import DolphinVC.Verification.ThesisWrites

/-!
# The default thesis of a fund

The flag of a thesis is set by a creation and by `set_default`, which clear the flags of the
fund before, and by the signup that founds it; a deletion clears it. So a fund has at most one
default thesis. But `set_default` finds deleted theses too, and then new applications are
attached to none.
-/

namespace DolphinVC

open Relational Transaction Transition

section Usable

variable (env : Env) (db : Db)

/-- A new opportunity of an application is attached to a live default thesis of the fund. -/
def AttachesDefault (orgId : Uuid) : Prop :=
  ∀ (company : Company) (d : DealDraws), liveOpportunity? orgId company.id db = none →
    ∃ t ∈ db.theses, t.orgId = orgId ∧ t.isDefault = true ∧ t.deletedAt = none ∧
      Tx.WP backend (fun _ _ s => s.pending = [.insertOpportunity
          (newOpportunity env d.opportunityId orgId company (some t.id) .inbound d.now d.now)])
        (applicationOpportunity env orgId company d) db {}

structure DefaultsUsable : Prop where
  unique : ∀ t ∈ db.theses, ∀ t' ∈ db.theses, t.orgId = t'.orgId → t.isDefault = true →
    t'.isDefault = true → t = t'
  live : ∀ t ∈ db.theses, t.isDefault = true → t.deletedAt = none
  attached : ∀ t ∈ db.theses, t.isDefault = true → AttachesDefault env db t.orgId

/-- The rows that name an organization name a stored one. -/
structure OrgsStored : Prop where
  theses : ∀ t ∈ db.theses, ∃ org ∈ db.orgs, org.id = t.orgId
  users : ∀ u ∈ db.users, ∃ org ∈ db.orgs, org.id = u.orgId
  apiKeys : ∀ k ∈ db.apiKeys, ∃ org ∈ db.orgs, org.id = k.orgId

variable {env db}

/-- The default thesis that an application looks up. -/
theorem attaches_of_live {t : Thesis}
    (live : ∀ t ∈ db.theses, t.isDefault = true → t.deletedAt = none) (ht : t ∈ db.theses)
    (hdefault : t.isDefault = true) : AttachesDefault env db t.orgId := by
  intro company d hnone
  cases hfind : db.theses.rows.find? fun r =>
      r.orgId = t.orgId ∧ r.isDefault ∧ r.deletedAt = none with
  | none =>
      have hmiss := List.find?_eq_none.mp hfind t ht
      simp [hdefault, live t ht hdefault] at hmiss
  | some r =>
      have hrow := List.find?_some hfind
      simp only [decide_eq_true_eq] at hrow
      refine ⟨r, List.mem_of_find?_eq_some hfind, hrow.1, hrow.2.1, hrow.2.2, ?_⟩
      unfold applicationOpportunity
      refine Tx.wp_bind.mpr (Tx.wp_query.mpr ?_)
      rw [Session.query_unflushed]
      dsimp only [Except.map]
      rw [hnone]
      refine Tx.wp_bind.mpr (Tx.wp_query.mpr ?_)
      rw [Session.query_unflushed]
      dsimp only [Except.map]
      rw [hfind]
      exact Tx.wp_bind.mpr (Tx.wp_stage.mpr (Tx.wp_bind.mpr (Tx.wp_flush_cases rfl fun _ => rfl)))

theorem defaultsUsable_iff : DefaultsUsable env db ↔
    (∀ t ∈ db.theses, ∀ t' ∈ db.theses, t.orgId = t'.orgId → t.isDefault = true →
      t'.isDefault = true → t = t') ∧
    ∀ t ∈ db.theses, t.isDefault = true → t.deletedAt = none :=
  ⟨fun h => ⟨h.unique, h.live⟩, fun h => ⟨h.1, h.2, fun _ ht => attaches_of_live h.2 ht⟩⟩

end Usable

inductive DefaultsEvent where
  | signup (body : SignupRequest) (d : Draws)
  | thesis (credentials : Option Credentials) (now : Timestamp) (request : ThesisRequest)

def defaultsStep (env : Env) (db : Db) : DefaultsEvent → Db
  | .signup body d => ((signupEndpoint env body d).atomically backend db).2
  | .thesis credentials now request => ((request.serve env credentials now).atomically backend db).2

/-- The request makes a deleted thesis of the fund the default. -/
def PromotesDeleted (env : Env) (db : Db) : DefaultsEvent → Prop
  | .thesis credentials now (.setDefault thesisId) => ∃ principal t,
      Admits env db .thesisWrite credentials now principal ∧
        fundThesis? principal.orgId thesisId db = some t ∧ t.deletedAt ≠ none
  | _ => False

section Step

variable {env : Env} {db db' : Db}

theorem OrgsStored.principal {permission : Permission} {credentials : Option Credentials}
    {now : Timestamp} {principal : Principal} (h : OrgsStored db)
    (admitted : Admits env db permission credentials now principal) :
    ∃ org ∈ db.orgs, org.id = principal.orgId := by
  obtain ⟨-, c, -, hstems⟩ := stems_of_require admitted
  cases hstems with
  | service _ horg => exact ⟨_, horg, rfl⟩
  | apiKey hkey => exact h.apiKeys _ hkey
  | user _ _ _ huser => exact h.users _ huser

/-- A default of the rewritten rows was one before, in the same fund and as little deleted. -/
def KeepsFlags (db : Db) (f : Thesis → Thesis) : Prop :=
  ∀ r ∈ db.theses, (f r).orgId = r.orgId ∧
    ((f r).isDefault = true → r.isDefault = true ∧ (f r).deletedAt = r.deletedAt)

theorem usable_of_rows {f : Thesis → Thesis} (h : DefaultsUsable env db)
    (hrows : ∀ s ∈ db'.theses, ∃ r ∈ db.theses, f r = s) (keeps : KeepsFlags db f) :
    DefaultsUsable env db' := by
  refine defaultsUsable_iff.mpr ⟨?_, ?_⟩
  · intro s hs s' hs' horg hdefault hdefault'
    obtain ⟨r, hr, rfl⟩ := hrows s hs
    obtain ⟨r', hr', rfl⟩ := hrows s' hs'
    have hfund : r.orgId = r'.orgId := by
      rw [← (keeps r hr).1, ← (keeps r' hr').1, horg]
    rw [h.unique r hr r' hr' hfund ((keeps r hr).2 hdefault).1 ((keeps r' hr').2 hdefault').1]
  · intro s hs hdefault
    obtain ⟨r, hr, rfl⟩ := hrows s hs
    obtain ⟨hwas, hdeleted⟩ := (keeps r hr).2 hdefault
    rw [hdeleted]
    exact h.live r hr hwas

/-- A new row that is the only default of its fund, or none. -/
theorem usable_of_insert {row : Thesis} {f : Thesis → Thesis} (h : DefaultsUsable env db)
    (hrows : ∀ s ∈ db'.theses, (∃ r ∈ db.theses, f r = s) ∨ s = row) (keeps : KeepsFlags db f)
    (live : row.deletedAt = none)
    (alone : row.isDefault = true →
      ∀ r ∈ db.theses, r.orgId = row.orgId → (f r).isDefault = false) :
    DefaultsUsable env db' := by
  have away (r : Thesis) (hr : r ∈ db.theses) (horg : (f r).orgId = row.orgId)
      (hdefault : (f r).isDefault = true) : row.isDefault = false := by
    refine Bool.eq_false_iff.mpr fun hrow => ?_
    rw [alone hrow r hr ((keeps r hr).1 ▸ horg)] at hdefault
    cases hdefault
  refine defaultsUsable_iff.mpr ⟨?_, ?_⟩
  · intro s hs s' hs' horg hdefault hdefault'
    obtain ⟨r, hr, rfl⟩ | rfl := hrows s hs
    · obtain ⟨r', hr', rfl⟩ | rfl := hrows s' hs'
      · have hfund : r.orgId = r'.orgId := by
          rw [← (keeps r hr).1, ← (keeps r' hr').1, horg]
        rw [h.unique r hr r' hr' hfund ((keeps r hr).2 hdefault).1 ((keeps r' hr').2 hdefault').1]
      · rw [away r hr horg hdefault] at hdefault'
        cases hdefault'
    · obtain ⟨r', hr', rfl⟩ | rfl := hrows s' hs'
      · rw [away r' hr' horg.symm hdefault'] at hdefault
        cases hdefault
      · rfl
  · intro s hs hdefault
    obtain ⟨r, hr, rfl⟩ | rfl := hrows s hs
    · obtain ⟨hwas, hdeleted⟩ := (keeps r hr).2 hdefault
      rw [hdeleted]
      exact h.live r hr hwas
    · exact live

theorem keepsFlags_leaves (body : ThesisCreate) (orgId : Uuid) :
    KeepsFlags db (body.leaves orgId) := by
  intro r _
  unfold ThesisCreate.leaves
  split
  · exact ⟨rfl, fun h => by cases h⟩
  · exact ⟨rfl, fun h => ⟨h, rfl⟩⟩

theorem usable_create (h : DefaultsUsable env db) {id orgId : Uuid} {body : ThesisCreate} :
    DefaultsUsable env (backend.outcome db (body.writes db orgId id)) := by
  by_cases effective : db.theses.find? id = none ∧ body.refusals = []
  · obtain ⟨theses, hout, hrows⟩ := create_outcome_fresh body orgId effective.1 effective.2
    rw [hout]
    refine usable_of_insert h (fun s hs => (hrows s).mp hs) (keepsFlags_leaves body orgId) rfl ?_
    intro hdefault r _ horg
    have hleaves : body.leaves orgId r = r.undefault := if_pos ⟨hdefault, horg⟩
    rw [hleaves]
    rfl
  · rw [create_outcome_refused fun fresh holds => effective ⟨fresh, holds⟩]
    exact h

theorem usable_update (h : DefaultsUsable env db) {t : Thesis} (ht : t ∈ db.theses)
    {body : ThesisUpdate} {ifMatch : Option String} :
    DefaultsUsable env (backend.outcome db (body.writes ifMatch t)) := by
  by_cases effective : matchesVersion ifMatch t.version ∧ body.refusals = []
  · obtain ⟨theses, hout, hrows⟩ := update_outcome body ht effective.1 effective.2
    rw [hout]
    refine usable_of_rows h (fun s hs => (hrows s).mp hs) fun r hr => ?_
    split
    · rename_i hid
      rw [Table.eq_of_key hr ht hid]
      exact ⟨rfl, fun hdefault => ⟨hdefault, rfl⟩⟩
    · exact ⟨rfl, fun hdefault => ⟨hdefault, rfl⟩⟩
  · rw [update_outcome_refused fun matched holds => effective ⟨matched, holds⟩]
    exact h

theorem usable_delete (h : DefaultsUsable env db) {t : Thesis} {now : Timestamp}
    (ht : t ∈ db.theses) : DefaultsUsable env (backend.outcome db (deletionWrites now t)) := by
  obtain ⟨theses, hout, hrows⟩ := deletion_outcome now ht
  rw [hout]
  refine usable_of_rows h (fun s hs => (hrows s).mp hs) fun r hr => ?_
  split
  · rename_i hid
    rw [Table.eq_of_key hr ht hid]
    exact ⟨rfl, fun hdefault => by cases hdefault⟩
  · exact ⟨rfl, fun hdefault => ⟨hdefault, rfl⟩⟩

/-- The new default is usable if it is not deleted. -/
theorem usable_setDefault_iff (h : DefaultsUsable env db) {t : Thesis} (ht : t ∈ db.theses) :
    DefaultsUsable env (backend.outcome db (defaultWrites db t t.orgId)) ↔ t.deletedAt = none := by
  obtain ⟨theses, hout, hrows⟩ := default_outcome ht rfl
  rw [hout]
  have flagged (r : Thesis) (hr : r ∈ db.theses)
      (hdefault : (r.promoted t.id t.orgId).isDefault = true) :
      r = t ∨ r.orgId ≠ t.orgId ∧ r.promoted t.id t.orgId = r := by
    unfold Thesis.promoted at hdefault ⊢
    by_cases hfund : r.orgId = t.orgId
    · rw [if_pos hfund, decide_eq_true_eq] at hdefault
      exact Or.inl (Table.eq_of_key hr ht hdefault)
    · exact Or.inr ⟨hfund, if_neg hfund⟩
  have horg (r : Thesis) : (r.promoted t.id t.orgId).orgId = r.orgId := by
    unfold Thesis.promoted
    split
    · rfl
    · rfl
  constructor
  · intro husable
    have hlive := husable.live (t.promoted t.id t.orgId) ((hrows _).mpr ⟨t, ht, rfl⟩)
    simpa [Thesis.promoted] using hlive
  · intro hlive
    refine defaultsUsable_iff.mpr ⟨?_, ?_⟩
    · intro s hs s' hs' hsame hdefault hdefault'
      obtain ⟨r, hr, rfl⟩ := (hrows s).mp hs
      obtain ⟨r', hr', rfl⟩ := (hrows s').mp hs'
      rw [horg, horg] at hsame
      obtain rfl | ⟨hother, hkept⟩ := flagged r hr hdefault
      · obtain rfl | ⟨hother', -⟩ := flagged r' hr' hdefault'
        · rfl
        · exact absurd hsame.symm hother'
      · obtain rfl | ⟨-, hkept'⟩ := flagged r' hr' hdefault'
        · exact absurd hsame hother
        · rw [hkept] at hdefault
          rw [hkept'] at hdefault'
          rw [h.unique r hr r' hr' hsame hdefault hdefault']
    · intro s hs hdefault
      obtain ⟨r, hr, rfl⟩ := (hrows s).mp hs
      obtain rfl | ⟨-, hkept⟩ := flagged r hr hdefault
      · unfold Thesis.promoted
        rw [if_pos rfl]
        exact hlive
      · rw [hkept] at hdefault ⊢
        exact h.live r hr hdefault

theorem usable_signup (h : DefaultsUsable env db) (hstored : OrgsStored db) {body : SignupRequest}
    {d : Draws} : DefaultsUsable env ((signupEndpoint env body d).atomically backend db).2 := by
  obtain hsame | ⟨name, slug, hout⟩ | ⟨invite, org, -, hout⟩ := signup_effect env db body d
  · rw [hsame]
    exact h
  · rw [hout]
    obtain happly | hsame := outcome_cases backend db (body.founds env d name slug)
    · obtain ⟨-, hfresh, -, hrows, -⟩ := founds_applied happly
      have live : (firstThesis d).deletedAt = none := rfl
      refine usable_of_insert (f := id) h ?_ (fun _ _ => ⟨rfl, fun hdefault => ⟨hdefault, rfl⟩⟩)
        live ?_
      · exact fun s hs => ((hrows s).mp hs).imp_left fun hold => ⟨s, hold, rfl⟩
      · intro _ r hr hfund
        obtain ⟨org, horg, hid⟩ := hstored.theses r hr
        exact absurd (hid.trans hfund) (hfresh org horg)
    · rw [hsame]
      exact h
  · rw [hout]
    obtain happly | hsame := outcome_cases backend db (body.joins env d org.id invite)
    · obtain ⟨-, -, htheses, -⟩ := joins_applied happly
      refine usable_of_rows (f := id) h ?_ fun r _ => ⟨rfl, fun hdefault => ⟨hdefault, rfl⟩⟩
      rw [htheses]
      exact fun s hs => ⟨s, hs, rfl⟩
    · rw [hsame]
      exact h

theorem orgsStored_signup (h : OrgsStored db) {body : SignupRequest} {d : Draws} :
    OrgsStored ((signupEndpoint env body d).atomically backend db).2 := by
  obtain hsame | ⟨name, slug, hout⟩ | ⟨invite, org, invited, hout⟩ := signup_effect env db body d
  · rw [hsame]
    exact h
  · rw [hout]
    obtain happly | hsame := outcome_cases backend db (body.founds env d name slug)
    · obtain ⟨horgs, -, husers, htheses, hkeys⟩ := founds_applied happly
      have kept {id : Uuid} (hold : ∃ o ∈ db.orgs, o.id = id) :
          ∃ o ∈ (backend.outcome db (body.founds env d name slug)).orgs, o.id = id := by
        obtain ⟨o, ho, hid⟩ := hold
        exact ⟨o, (horgs o).mpr (Or.inl ho), hid⟩
      refine ⟨fun t ht => ?_, fun u hu => ?_, fun k hk => kept (h.apiKeys k (hkeys ▸ hk))⟩
      · obtain hold | rfl := (htheses t).mp ht
        · exact kept (h.theses t hold)
        · exact ⟨_, (horgs _).mpr (Or.inr rfl), rfl⟩
      · obtain hold | rfl := (husers u).mp hu
        · exact kept (h.users u hold)
        · exact ⟨_, (horgs _).mpr (Or.inr rfl), rfl⟩
    · rw [hsame]
      exact h
  · rw [hout]
    obtain happly | hsame := outcome_cases backend db (body.joins env d org.id invite)
    · obtain ⟨horgs, husers, htheses, hkeys⟩ := joins_applied happly
      refine ⟨?_, fun u hu => ?_, ?_⟩
      · rw [htheses, horgs]
        exact h.theses
      · rw [horgs]
        obtain hold | rfl := (husers u).mp hu
        · exact h.users u hold
        · exact ⟨org, invited.founded, rfl⟩
      · rw [hkeys, horgs]
        exact h.apiKeys
    · rw [hsame]
      exact h

/-- A thesis request only rewrites theses and inserts one into the fund it acts in. -/
theorem orgsStored_thesis (h : OrgsStored db) {credentials : Option Credentials} {now : Timestamp}
    {request : ThesisRequest} :
    OrgsStored ((request.serve env credentials now).atomically backend db).2 := by
  cases hadmits : ((require .thesisWrite env credentials now).atomically backend db).1 with
  | error e =>
      rw [thesis_refused hadmits]
      exact h
  | ok principal =>
      rw [thesis_served hadmits]
      have rewritten {f : Thesis → Thesis} {theses : Table Uuid Thesis Thesis.id}
          (hrows : ∀ s, s ∈ theses ↔ ∃ r ∈ db.theses, f r = s)
          (horg : ∀ r ∈ db.theses, (f r).orgId = r.orgId) : OrgsStored { db with theses } := by
        refine ⟨fun s hs => ?_, h.users, h.apiKeys⟩
        obtain ⟨r, hr, rfl⟩ := (hrows s).mp hs
        rw [horg r hr]
        exact h.theses r hr
      have untouched : OrgsStored (backend.outcome db []) := h
      cases request with
      | create id body =>
          dsimp only [ThesisRequest.writes]
          by_cases effective : db.theses.find? id = none ∧ body.refusals = []
          · obtain ⟨theses, hout, hrows⟩ :=
              create_outcome_fresh body principal.orgId effective.1 effective.2
            show OrgsStored (backend.outcome db (body.writes db principal.orgId id))
            rw [hout]
            refine ⟨fun s hs => ?_, h.users, h.apiKeys⟩
            obtain ⟨r, hr, rfl⟩ | rfl := (hrows s).mp hs
            · rw [(keepsFlags_leaves body principal.orgId r hr).1]
              exact h.theses r hr
            · exact h.principal hadmits
          · rw [create_outcome_refused fun fresh holds => effective ⟨fresh, holds⟩]
            exact h
      | update thesisId body ifMatch =>
          dsimp only [ThesisRequest.writes]
          cases hfind : fundThesis? principal.orgId thesisId db with
          | none => exact untouched
          | some t =>
              have ht := (fundThesis?_eq_some_iff.mp hfind).1
              show OrgsStored (backend.outcome db (body.writes ifMatch t))
              by_cases effective : matchesVersion ifMatch t.version ∧ body.refusals = []
              · obtain ⟨theses, hout, hrows⟩ :=
                  update_outcome body ht effective.1 effective.2
                rw [hout]
                refine rewritten hrows fun r hr => ?_
                split
                · rw [Table.eq_of_key hr ht ‹_›]
                  rfl
                · rfl
              · rw [update_outcome_refused fun matched holds => effective ⟨matched, holds⟩]
                exact h
      | delete thesisId =>
          dsimp only [ThesisRequest.writes]
          cases hfind : fundThesis? principal.orgId thesisId db with
          | none => exact untouched
          | some t =>
              have ht := (fundThesis?_eq_some_iff.mp hfind).1
              obtain ⟨theses, hout, hrows⟩ := deletion_outcome now ht
              refine hout ▸ rewritten hrows fun r hr => ?_
              split
              · rw [Table.eq_of_key hr ht ‹_›]
              · rfl
      | setDefault thesisId =>
          dsimp only [ThesisRequest.writes]
          cases hfind : fundThesis? principal.orgId thesisId db with
          | none => exact untouched
          | some t =>
              obtain ⟨ht, -, horg⟩ := fundThesis?_eq_some_iff.mp hfind
              obtain ⟨theses, hout, hrows⟩ := default_outcome ht horg
              refine hout ▸ rewritten hrows fun r hr => ?_
              unfold Thesis.promoted
              split
              · rfl
              · rfl

theorem orgsStored_step (h : OrgsStored db) (e : DefaultsEvent) :
    OrgsStored (defaultsStep env db e) := by
  cases e with
  | signup body d => exact orgsStored_signup h
  | thesis credentials now request => exact orgsStored_thesis h

/-- Whether the default theses stay usable is decided by which thesis is made the default. -/
theorem usable_step_iff (hstored : OrgsStored db) (h : DefaultsUsable env db) (e : DefaultsEvent) :
    DefaultsUsable env (defaultsStep env db e) ↔ ¬ PromotesDeleted env db e := by
  cases e with
  | signup body d => exact iff_of_true (usable_signup h hstored) id
  | thesis credentials now request =>
      show DefaultsUsable env ((request.serve env credentials now).atomically backend db).2 ↔ _
      cases hadmits : ((require .thesisWrite env credentials now).atomically backend db).1 with
      | error e =>
          rw [thesis_refused hadmits]
          refine iff_of_true h fun promotes => ?_
          cases request with
          | setDefault thesisId =>
              obtain ⟨principal, t, admitted, -⟩ := promotes
              rw [Admits, hadmits] at admitted
              cases admitted
          | _ => exact promotes
      | ok principal =>
          rw [thesis_served hadmits]
          have untouched : DefaultsUsable env (backend.outcome db []) := h
          cases request with
          | create thesisId body => exact iff_of_true (usable_create h) id
          | update thesisId body ifMatch =>
              refine iff_of_true ?_ id
              dsimp only [ThesisRequest.writes]
              cases hfind : fundThesis? principal.orgId thesisId db with
              | none => exact untouched
              | some t => exact usable_update h (fundThesis?_eq_some_iff.mp hfind).1
          | delete thesisId =>
              refine iff_of_true ?_ id
              dsimp only [ThesisRequest.writes]
              cases hfind : fundThesis? principal.orgId thesisId db with
              | none => exact untouched
              | some t => exact usable_delete h (fundThesis?_eq_some_iff.mp hfind).1
          | setDefault thesisId =>
              dsimp only [ThesisRequest.writes]
              cases hfind : fundThesis? principal.orgId thesisId db with
              | none =>
                  refine iff_of_true untouched ?_
                  rintro ⟨other, t, admitted, hother, -⟩
                  rw [Admits, hadmits] at admitted
                  cases admitted
                  rw [hfind] at hother
                  cases hother
              | some t =>
                  obtain ⟨ht, -, horg⟩ := fundThesis?_eq_some_iff.mp hfind
                  have husable := usable_setDefault_iff h ht
                  rw [horg] at husable
                  refine husable.trans ⟨?_, ?_⟩
                  · rintro hlive ⟨other, t', admitted, hother, hdeleted⟩
                    rw [Admits, hadmits] at admitted
                    cases admitted
                    rw [hfind] at hother
                    cases hother
                    exact hdeleted hlive
                  · intro never
                    by_contra hdeleted
                    exact never ⟨principal, t, hadmits, hfind, hdeleted⟩

end Step

/-- Along a sequence of signups and thesis requests every fund has at most one default thesis,
which is not deleted and which new applications are attached to, exactly when no request
makes a deleted thesis the default. -/
theorem default_theses_usable_iff (env : Env) (db : Db) (events : List DefaultsEvent)
    (stored : OrgsStored db) (start : DefaultsUsable env db) :
    Along (defaultsStep env) (DefaultsUsable env) db events ↔
      Meets (defaultsStep env) (fun db e => ¬ PromotesDeleted env db e) db events :=
  along_iff_meets (I := OrgsStored) (A := fun _ => True) (fun _ e _ h => orgsStored_step h e)
    (fun _ e _ hstored h => usable_step_iff hstored h e) (fun _ _ => trivial) stored start

section Cay

/-- A fund with a default thesis. -/
def cayDb : Db where
  orgs := ⟨[{ id := 51, name := "Cay Fund", slug := "cay-fund" }], by decide⟩
  users := ⟨[
    { id := 52, orgId := 51, email := "ana@cay.fund", passwordHash := none, fullName := "Ana"
      role := .owner }], by decide⟩
  theses := ⟨[
    { id := 53, orgId := 51, name := "Reefs", isDefault := true }], by decide⟩

def cayEnv : Env :=
  { plainEnv with
    decodeAccessToken := fun token _ =>
      if token = "ana" then
        .ok { sub := 52, org := 51, role := .owner, scopes := [], iat := 0, exp := 1 }
      else .error (Exc.unauthenticated) }

def cayRequest (request : ThesisRequest) : DefaultsEvent :=
  .thesis (some { token := "ana" }) 1 request

theorem cay_stored : OrgsStored cayDb := by
  refine ⟨by decide, by decide, fun k hk => by cases hk⟩

theorem cay_usable : DefaultsUsable cayEnv cayDb :=
  defaultsUsable_iff.mpr ⟨by
    intro t ht t' ht' _ hdefault hdefault'
    have first : ∀ t ∈ cayDb.theses, t.isDefault = true → t.id = 53 := by decide
    exact Table.eq_of_key ht ht' ((first t ht hdefault).trans (first t' ht' hdefault').symm),
    by decide⟩

/-- A deleted thesis is made the default. -/
theorem deleted_thesis_becomes_default :
    ¬ Along (defaultsStep cayEnv) (DefaultsUsable cayEnv) cayDb
      [cayRequest (.delete 53), cayRequest (.setDefault 53)] := by
  rintro ⟨-, husable, hlast⟩
  have stored : OrgsStored (defaultsStep cayEnv cayDb (cayRequest (.delete 53))) :=
    orgsStored_step cay_stored _
  have kept := (usable_step_iff stored husable (cayRequest (.setDefault 53))).mp hlast
  exact kept ⟨_, _, rfl, rfl, by decide⟩

theorem live_thesis_stays_default :
    Along (defaultsStep cayEnv) (DefaultsUsable cayEnv) cayDb
      [cayRequest (.setDefault 53), cayRequest (.delete 53)] :=
  (default_theses_usable_iff cayEnv cayDb _ cay_stored cay_usable).mpr ⟨by
    rintro ⟨principal, t, admitted, hfind, hdeleted⟩
    obtain ⟨ht, hid, -⟩ := fundThesis?_eq_some_iff.mp hfind
    have live : ∀ t ∈ cayDb.theses, t.id = 53 → t.deletedAt = none := by decide
    exact hdeleted (live t ht hid), id, trivial⟩

end Cay

end DolphinVC
