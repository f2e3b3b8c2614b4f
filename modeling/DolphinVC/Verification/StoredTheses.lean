import DolphinVC.Transition.Run
import DolphinVC.Services.Score
import DolphinVC.Verification.ThesisWrites

/-!
# The rules that stored theses obey

A creation is checked as a whole; an update is checked field by field and then assigned to
the stored row. So an update can break a rule about two fields, and it can replace the
weights by any others. And the sectors of a creation are compared as they are written,
while the fit of a company folds their case. The rule about the check sizes is one about the
stored ones, which have two decimals.
-/

namespace DolphinVC

open Relational Transaction Transition

section Rules

variable (env : Env)

/-- No sector is an excluded one under case folding. -/
def Apart (sectors antiSectors : List String) : Prop :=
  ∀ s ∈ sectors, env.casefold s ∉ antiSectors.map env.casefold

/-- The weights are those of the three axes. -/
def WeighsAxes (weights : Json (List (String × Rat))) : Prop :=
  ∃ w, weights = some w ∧ ∀ k, k ∈ w.map Prod.fst ↔ k ∈ ["founder", "market", "idea_vs_market"]

def OrderedSizes (checkSizeMin checkSizeMax : Option Rat) : Prop :=
  ∀ lo ∈ checkSizeMin, ∀ hi ∈ checkSizeMax, lo ≤ hi

/-- A company whose sectors are all among those of the thesis is not excluded for its sectors. -/
def Thesis.WelcomesItsSectors (t : Thesis) : Prop :=
  ∀ (sectors : List String) (stage country : Option String),
    (∀ s ∈ sectors, env.casefold s ∈ (t.sectors.getD []).map env.casefold) →
      gateReason env sectors stage country (t.sectors.getD []) (t.antiSectors.getD [])
        (t.stages.getD []) (t.geos.getD []) ≠ some "Company matches an excluded sector."

structure Thesis.Valid (t : Thesis) : Prop where
  checkSizes : OrderedSizes t.checkSizeMin t.checkSizeMax
  weightKeys : WeighsAxes t.weights
  sectorsApart : Apart env (t.sectors.getD []) (t.antiSectors.getD [])
  welcomes : t.WelcomesItsSectors env

/-- Every stored thesis obeys the rules. -/
def Stored (db : Db) : Prop := ∀ t ∈ db.theses, t.Valid env

/-- The fields that an update sets, together with those it leaves, obey the rules. -/
structure ThesisUpdate.Fits (body : ThesisUpdate) (t : Thesis) : Prop where
  checkSizes : OrderedSizes (body.storedMin.getD t.checkSizeMin)
    (body.storedMax.getD t.checkSizeMax)
  weightKeys : ∀ w ∈ body.weights, WeighsAxes w
  sectorsApart : Apart env ((body.sectors.getD t.sectors).getD [])
    ((body.antiSectors.getD t.antiSectors).getD [])

variable {env} {t : Thesis}

theorem meets_eq_true_iff {folded items : List String} :
    meets env folded items = true ↔ ∃ s ∈ folded, s ∈ items.map env.casefold := by
  simp [meets]

theorem welcomes_of_apart (h : Apart env (t.sectors.getD []) (t.antiSectors.getD [])) :
    t.WelcomesItsSectors env := by
  intro sectors stage country own
  have hgate : meets env (sectors.map env.casefold) (t.antiSectors.getD []) = false := by
    refine Bool.eq_false_iff.mpr fun hmeets => ?_
    obtain ⟨folded, hfolded, hanti⟩ := meets_eq_true_iff.mp hmeets
    obtain ⟨s, hs, rfl⟩ := List.mem_map.mp hfolded
    obtain ⟨mine, hmine, hsame⟩ := List.mem_map.mp (own s hs)
    rw [← hsame] at hanti
    exact h mine hmine hanti
  unfold gateReason
  simp only [hgate, Bool.false_eq_true, if_false]
  intro hreason
  repeat' split at hreason
  all_goals simp at hreason

theorem valid_iff : t.Valid env ↔ OrderedSizes t.checkSizeMin t.checkSizeMax ∧
    WeighsAxes t.weights ∧ Apart env (t.sectors.getD []) (t.antiSectors.getD []) :=
  ⟨fun h => ⟨h.checkSizes, h.weightKeys, h.sectorsApart⟩,
    fun ⟨sizes, keys, apart⟩ => ⟨sizes, keys, apart, welcomes_of_apart apart⟩⟩

theorem orderedSizes_row (body : ThesisCreate) (id orgId : Uuid) :
    OrderedSizes (body.row id orgId).checkSizeMin (body.row id orgId).checkSizeMax := by
  intro lo hlo hi hhi
  obtain ⟨lo', hlo', rfl⟩ := Option.mem_map.mp hlo
  obtain ⟨hi', hhi', rfl⟩ := Option.mem_map.mp hhi
  exact Rounding.roundAway_mono (body.checkSizes lo' hlo' hi' hhi')

theorem valid_row_iff {body : ThesisCreate} (id orgId : Uuid) :
    (body.row id orgId).Valid env ↔ Apart env body.sectors body.antiSectors := by
  rw [valid_iff]
  exact ⟨fun h => h.2.2,
    fun h => ⟨orderedSizes_row body id orgId, ⟨body.weights, rfl, body.weightKeys⟩, h⟩⟩

theorem valid_assign_iff {body : ThesisUpdate} (h : t.Valid env) :
    (body.assign t).Valid env ↔ body.Fits env t := by
  rw [valid_iff]
  constructor
  · rintro ⟨sizes, keys, apart⟩
    refine ⟨sizes, fun w hw => ?_, apart⟩
    have hassigned : (body.assign t).weights = body.weights.getD t.weights := rfl
    rw [hassigned, hw] at keys
    exact keys
  · intro fits
    refine ⟨fits.checkSizes, ?_, fits.sectorsApart⟩
    show WeighsAxes (body.weights.getD t.weights)
    cases hw : body.weights with
    | none => exact h.weightKeys
    | some w => exact fits.weightKeys w hw

end Rules

section Requests

variable (env : Env)

structure ThesisEvent where
  credentials : Option Credentials
  now : Timestamp
  request : ThesisRequest

def thesisStep (db : Db) (e : ThesisEvent) : Db :=
  ((e.request.serve env e.credentials e.now).atomically backend db).2

/-- What a request that takes effect sets obeys the rules. -/
def ThesisRequest.Sound (db : Db) (orgId : Uuid) : ThesisRequest → Prop
  | .create id body => db.theses.find? id = none → body.refusals = [] →
      Apart env body.sectors body.antiSectors
  | .update thesisId body ifMatch => ∀ t, fundThesis? orgId thesisId db = some t →
      matchesVersion ifMatch t.version → body.refusals = [] → body.Fits env t
  | .delete _ => True
  | .setDefault _ => True

def ThesisEvent.Sound (db : Db) (e : ThesisEvent) : Prop :=
  ∀ principal, Admits env db .thesisWrite e.credentials e.now principal →
    e.request.Sound env db principal.orgId

variable {env} {db : Db}

/-- The flag and the mark of deletion have no part in the rules. -/
theorem Thesis.Valid.of_rules {t t' : Thesis} (h : t.Valid env)
    (sizeMin : t'.checkSizeMin = t.checkSizeMin) (sizeMax : t'.checkSizeMax = t.checkSizeMax)
    (weights : t'.weights = t.weights) (sectors : t'.sectors = t.sectors)
    (antiSectors : t'.antiSectors = t.antiSectors) :
    t'.Valid env := by
  rw [valid_iff, sizeMin, sizeMax, weights, sectors, antiSectors]
  exact valid_iff.mp h

theorem stored_of_rows {db' : Db} {f : Thesis → Thesis} (h : Stored env db)
    (hrows : ∀ s, s ∈ db'.theses ↔ ∃ r ∈ db.theses, f r = s)
    (keep : ∀ r ∈ db.theses, r.Valid env → (f r).Valid env) : Stored env db' := by
  intro s hs
  obtain ⟨r, hr, rfl⟩ := (hrows s).mp hs
  exact keep r hr (h r hr)

theorem stored_create_iff (h : Stored env db) {id orgId : Uuid} {body : ThesisCreate} :
    Stored env (backend.outcome db (body.writes db orgId id)) ↔
      (db.theses.find? id = none → body.refusals = [] →
        Apart env body.sectors body.antiSectors) := by
  by_cases effective : db.theses.find? id = none ∧ body.refusals = []
  · obtain ⟨theses, hout, hrows⟩ := create_outcome_fresh body orgId effective.1 effective.2
    rw [hout, ← valid_row_iff id orgId]
    constructor
    · exact fun hstored _ _ => hstored _ ((hrows _).mpr (Or.inr rfl))
    · intro hrow s hs
      obtain ⟨r, hr, rfl⟩ | rfl := (hrows s).mp hs
      · unfold ThesisCreate.leaves
        split
        · exact (h r hr).of_rules rfl rfl rfl rfl rfl
        · exact h r hr
      · exact hrow effective.1 effective.2
  · rw [create_outcome_refused fun fresh holds => effective ⟨fresh, holds⟩]
    exact iff_of_true h fun fresh holds => absurd ⟨fresh, holds⟩ effective

theorem stored_update_iff (h : Stored env db) {t : Thesis} (ht : t ∈ db.theses)
    {body : ThesisUpdate} {ifMatch : Option String} :
    Stored env (backend.outcome db (body.writes ifMatch t)) ↔
      (matchesVersion ifMatch t.version → body.refusals = [] → body.Fits env t) := by
  by_cases effective : matchesVersion ifMatch t.version ∧ body.refusals = []
  · obtain ⟨theses, hout, hrows⟩ := update_outcome body ht effective.1 effective.2
    rw [hout, ← valid_assign_iff (h t ht)]
    constructor
    · exact fun hstored _ _ => hstored _ ((hrows _).mpr ⟨t, ht, if_pos rfl⟩)
    · intro hassigned
      refine stored_of_rows h hrows fun r hr hvalid => ?_
      split
      · exact hassigned effective.1 effective.2
      · exact hvalid
  · rw [update_outcome_refused fun matched holds => effective ⟨matched, holds⟩]
    exact iff_of_true h fun matched holds => absurd ⟨matched, holds⟩ effective

/-- Whether the theses stay valid is decided by what an effective request sets. -/
theorem stored_step_iff (h : Stored env db) (e : ThesisEvent) :
    Stored env (thesisStep env db e) ↔ e.Sound env db := by
  unfold thesisStep
  cases hadmits : ((require .thesisWrite env e.credentials e.now).atomically backend db).1 with
  | error exc =>
      rw [thesis_refused hadmits]
      refine iff_of_true h fun principal admitted => ?_
      rw [Admits, hadmits] at admitted
      cases admitted
  | ok principal =>
      have hsound : e.Sound env db ↔ e.request.Sound env db principal.orgId := by
        constructor
        · exact fun hsound => hsound principal hadmits
        · intro hsound other admitted
          rw [Admits, hadmits] at admitted
          cases admitted
          exact hsound
      rw [thesis_served hadmits, hsound]
      have untouched : Stored env (backend.outcome db []) := h
      cases e.request with
      | create id body => exact stored_create_iff h
      | update thesisId body ifMatch =>
          dsimp only [ThesisRequest.writes, ThesisRequest.Sound]
          cases ht : fundThesis? principal.orgId thesisId db with
          | none => exact iff_of_true untouched (by simp)
          | some t =>
              refine (stored_update_iff h (fundThesis?_eq_some_iff.mp ht).1).trans ?_
              simp
      | delete thesisId =>
          refine iff_of_true ?_ trivial
          dsimp only [ThesisRequest.writes]
          cases ht : fundThesis? principal.orgId thesisId db with
          | none => exact untouched
          | some t =>
              have hmem := (fundThesis?_eq_some_iff.mp ht).1
              obtain ⟨theses, hout, hrows⟩ := deletion_outcome e.now hmem
              refine hout ▸ stored_of_rows h hrows fun r hr hvalid => ?_
              split
              · exact (h t hmem).of_rules rfl rfl rfl rfl rfl
              · exact hvalid
      | setDefault thesisId =>
          refine iff_of_true ?_ trivial
          dsimp only [ThesisRequest.writes]
          cases ht : fundThesis? principal.orgId thesisId db with
          | none => exact untouched
          | some t =>
              obtain ⟨hmem, -, horg⟩ := fundThesis?_eq_some_iff.mp ht
              obtain ⟨theses, hout, hrows⟩ := default_outcome hmem horg
              refine hout ▸ stored_of_rows h hrows fun r hr hvalid => ?_
              unfold Thesis.promoted
              split
              · exact hvalid.of_rules rfl rfl rfl rfl rfl
              · exact hvalid

end Requests

/-- Along a sequence of thesis requests every stored thesis obeys the rules exactly when no
creation that takes effect includes and excludes a sector in two spellings and no update that
takes effect breaks a rule together with the fields it leaves. -/
theorem theses_stay_valid_iff (env : Env) (db : Db) (events : List ThesisEvent)
    (start : Stored env db) :
    Along (thesisStep env) (Stored env) db events ↔
      Meets (thesisStep env) (fun db e => e.Sound env db) db events :=
  along_iff_meets (I := fun _ => True) (A := fun _ => True) (fun _ _ _ _ => trivial)
    (fun _ e _ _ h => stored_step_iff h e) (fun _ _ => trivial) trivial start

section Atoll

/-- A fund whose thesis names the largest check. -/
def atollThesis : Thesis where
  id := 33
  orgId := 31
  name := "Blue economy"
  sectors := some ["ocean"]
  antiSectors := some ["oil"]
  checkSizeMax := some 5

def atollDb : Db where
  orgs := ⟨[{ id := 31, name := "Atoll Fund", slug := "atoll-fund" }], by decide⟩
  users := ⟨[
    { id := 32, orgId := 31, email := "noa@atoll.fund", passwordHash := none, fullName := "Noa"
      role := .owner }], by decide⟩
  theses := ⟨[atollThesis], by decide⟩

def atollEnv : Env :=
  { plainEnv with
    casefold := String.toLower
    decodeAccessToken := fun token _ =>
      if token = "noa" then
        .ok { sub := 32, org := 31, role := .owner, scopes := [], iat := 0, exp := 1 }
      else .error (Exc.unauthenticated) }

/-- Noa sets the smallest check. -/
def atollUpdate (least : Rat) (nonneg : 0 ≤ least) : ThesisEvent where
  credentials := some { token := "noa" }
  now := 0
  request := .update 33
    { checkSizeMin := some (some least)
      bounds := by simpa [fieldBounds] using nonneg } (some "1")

theorem atoll_stored : Stored atollEnv atollDb := by
  intro t ht
  obtain rfl := List.mem_singleton.mp ht
  refine valid_iff.mpr ⟨?_, ⟨_, rfl, by simp⟩, ?_⟩
  · intro lo hlo
    cases hlo
  · unfold Apart
    decide +kernel

theorem atoll_update_fits {least : Rat} {nonneg : 0 ≤ least}
    (small : sizeOverflow (some least) = []) :
    (atollUpdate least nonneg).Sound atollEnv atollDb ↔ numeric 2 least ≤ 5 := by
  constructor
  · intro sound
    have fits := sound { orgId := 31, userId := some 32, role := .owner, scopes := [] } rfl
      atollThesis rfl rfl
      (by simpa [ThesisUpdate.refusals, ThesisUpdate.nulls, sizeOverflow] using small)
    exact fits.checkSizes _ rfl 5 rfl
  · intro hle principal _ t ht _ _
    obtain rfl := List.mem_singleton.mp (fundThesis?_eq_some_iff.mp ht).1
    refine ⟨?_, (fun w hw => by cases hw), ?_⟩
    · intro lo hlo hi hhi
      cases hlo
      cases hhi
      exact hle
    · exact (atoll_stored atollThesis List.mem_cons_self).sectorsApart

theorem atoll_least : (0 : Rat) ≤ 5004 / 1000 ∧ (0 : Rat) ≤ 10 := by norm_num

/-- A smallest check of 10 is taken although the largest is 5. -/
theorem update_crosses_sizes :
    ¬ Along (thesisStep atollEnv) (Stored atollEnv) atollDb [atollUpdate 10 atoll_least.2] := by
  intro h
  have hle : numeric 2 10 ≤ 5 :=
    (atoll_update_fits (by decide +kernel)).mp ((stored_step_iff atoll_stored _).mp h.last)
  exact absurd hle (by decide +kernel)

/-- A smallest check of 5.004 is stored as 5. -/
theorem update_within_sizes :
    Along (thesisStep atollEnv) (Stored atollEnv) atollDb
      [atollUpdate (5004 / 1000) atoll_least.1] :=
  (theses_stay_valid_iff atollEnv atollDb _ atoll_stored).mpr
    ⟨(atoll_update_fits (by decide +kernel)).mpr (by decide +kernel), trivial⟩

end Atoll

end DolphinVC
