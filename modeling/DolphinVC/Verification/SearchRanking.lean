import DolphinVC.Relational.Ranking
import DolphinVC.Routers.Entities
import DolphinVC.Services.Search

/-!
# What a search leaves out

Both searches rank a part of the rows: the database hands over 200 opportunities or 500 chunks
in an order of its own, and only these are scored. The result is the best one in every order
exactly if the rows are few, or the scores leave no choice.
-/

namespace DolphinVC

open Relational

variable {env : Env} {plan : QueryPlan} {orgId : Uuid} {db : Db} {limit : Nat}

section Opportunities

/-- The row of one opportunity, if it belongs to the fund and is in the right place. -/
def searchRow (env : Env) (orgId : Uuid) (plan : QueryPlan) (db : Db) (o : Opportunity) :
    Option (Opportunity × Company) :=
  ((db.companies.find? o.companyId).map fun c => (o, c)).filter fun row =>
    row.1.orgId = orgId ∧ meetsPlace env plan row.2

theorem searchRows_eq : searchRows env orgId plan db =
    db.opportunities.rows.filterMap (searchRow env orgId plan db) := List.filter_filterMap

theorem searchRow_fst {o : Opportunity} {row : Opportunity × Company}
    (h : searchRow env orgId plan db o = some row) : row.1 = o := by
  rw [searchRow, Option.filter_eq_some_iff, Option.map_eq_some_iff] at h
  obtain ⟨⟨c, -, rfl⟩, -⟩ := h
  rfl

theorem rankRows_eq {rows : List (Opportunity × Company)} : rankRows env plan limit rows =
    Ranking.cutTop (fun row => searchScore env plan row.2) (fun _ => true) 200 limit rows := by
  rw [rankRows, Ranking.cutTop, Ranking.top, List.filter_true]

theorem mem_searchRows {row : Opportunity × Company} (h : row ∈ searchRows env orgId plan db) :
    row.1 ∈ db.opportunities ∧ searchRow env orgId plan db row.1 = some row := by
  rw [searchRows_eq] at h
  obtain ⟨o, ho, hrow⟩ := List.mem_filterMap.mp h
  rw [searchRow_fst hrow]
  exact ⟨ho, hrow⟩

/-- A row is known by the id of its opportunity. -/
theorem searchRows_inj {row row' : Opportunity × Company} (h : row ∈ searchRows env orgId plan db)
    (h' : row' ∈ searchRows env orgId plan db) (hid : row.1.id = row'.1.id) : row = row' := by
  obtain ⟨hmem, hrow⟩ := mem_searchRows h
  obtain ⟨hmem', hrow'⟩ := mem_searchRows h'
  rw [Table.eq_of_key hmem hmem' hid] at hrow
  exact Option.some.inj (hrow.symm.trans hrow')

theorem nodup_searchRows : (searchRows env orgId plan db).Nodup := by
  rw [searchRows_eq]
  refine (List.Nodup.of_map _ db.opportunities.nodup).filterMap ?_
  intro o o' row hrow hrow'
  exact (searchRow_fst hrow).symm.trans (searchRow_fst hrow')

/-- In every order of the opportunities, none that matches the place and is missing from the
result scores higher than one in it. -/
def BestOpportunities (env : Env) (sets : SetOrder) (orgId : Uuid) (q : String) (limit : Nat)
    (db : Db) : Prop :=
  ∀ t : Table Uuid Opportunity Opportunity.id, t.rows.Perm db.opportunities.rows →
    ∀ row ∈ searchRows env orgId (interpretQuery env sets q) db,
      row.1.id ∉ (searchOpportunities env sets orgId q limit { db with opportunities := t }).map
        SearchItem.opportunity →
      ∀ row' ∈ searchRows env orgId (interpretQuery env sets q) db,
        row'.1.id ∈ (searchOpportunities env sets orgId q limit { db with opportunities := t }).map
          SearchItem.opportunity →
        searchScore env (interpretQuery env sets q) row.2 ≤
          searchScore env (interpretQuery env sets q) row'.2

theorem bestOpportunities_iff_orders {sets : SetOrder} {q : String} :
    BestOpportunities env sets orgId q limit db ↔
      ∀ rows', rows'.Perm (searchRows env orgId (interpretQuery env sets q) db) →
        Ranking.Best (fun row => searchScore env (interpretQuery env sets q) row.2)
          (searchRows env orgId (interpretQuery env sets q) db)
          (rankRows env (interpretQuery env sets q) limit rows') := by
  set plan := interpretQuery env sets q
  have hids (t : Table Uuid Opportunity Opportunity.id) :
      (searchOpportunities env sets orgId q limit { db with opportunities := t }).map
          SearchItem.opportunity =
        (rankRows env plan limit (t.rows.filterMap (searchRow env orgId plan db))).map
          fun row => row.1.id := by
    rw [searchOpportunities, searchRows_eq, List.map_map]
    rfl
  have hkeys {rows' : List (Opportunity × Company)}
      (hperm : rows'.Perm (searchRows env orgId plan db)) :=
    have hsub (y) (hy : y ∈ rankRows env plan limit rows') : y ∈ searchRows env orgId plan db := by
      rw [rankRows_eq] at hy
      exact hperm.mem_iff.mp (List.mem_of_mem_take (Ranking.mem_of_mem_top hy).1)
    Ranking.best_iff_keys (fun row => searchScore env plan row.2)
      (fun row : Opportunity × Company => row.1.id)
      (fun x hx y hy h => searchRows_inj hx hy h) hsub
  constructor
  · intro h rows' hperm
    rw [hkeys hperm]
    rw [searchRows_eq] at hperm
    obtain ⟨l, hl, rfl⟩ := Ranking.exists_perm_filterMap _ (fun _ _ => searchRow_fst) hperm
    have ht := h ⟨l, (hl.map _).nodup_iff.mpr db.opportunities.nodup⟩ hl
    rw [hids] at ht
    exact ht
  · intro h t ht
    rw [hids]
    have hperm : (t.rows.filterMap (searchRow env orgId plan db)).Perm
        (searchRows env orgId plan db) := by
      rw [searchRows_eq]
      exact ht.filterMap _
    exact (hkeys hperm).mp (h _ hperm)

theorem bestOpportunities_iff {sets : SetOrder} {q : String} :
    BestOpportunities env sets orgId q limit db ↔
      limit = 0 ∨ (searchRows env orgId (interpretQuery env sets q) db).length ≤ 200 ∨
        (∀ row ∈ searchRows env orgId (interpretQuery env sets q) db,
          ∀ row' ∈ searchRows env orgId (interpretQuery env sets q) db,
            searchScore env (interpretQuery env sets q) row'.2 ≤
              searchScore env (interpretQuery env sets q) row.2) ∨
        (searchRows env orgId (interpretQuery env sets q) db).countP
          (Ranking.Beaten (fun row => searchScore env (interpretQuery env sets q) row.2)
            (searchRows env orgId (interpretQuery env sets q) db)) + min limit 200 ≤ 200 := by
  rw [bestOpportunities_iff_orders]
  simp only [rankRows_eq]
  rw [Ranking.cutTop_best_iff nodup_searchRows (by decide) fun _ _ _ _ _ _ => rfl]
  simp only [forall_const]

end Opportunities

section Chunks

variable {body : KBSearchRequest}

/-- The chunks that a search in the knowledge base may return. -/
def kbRows (orgId : Uuid) (body : KBSearchRequest) (db : Db) : List KBChunk :=
  db.kbChunks.rows.filter fun c => visibleTo orgId c.orgId ∧
    matchesFilter body.companyId c.companyId ∧ matchesFilter body.personId c.personId

def kbScore (env : Env) (body : KBSearchRequest) (c : KBChunk) : Rat :=
  chunkScore env (searchTerms env body.q) c.content

theorem kbScore_nonneg (env : Env) (body : KBSearchRequest) (c : KBChunk) :
    0 ≤ kbScore env body c := by
  rw [kbScore, chunkScore]
  exact Binary64.double_nonneg (div_nonneg (Nat.cast_nonneg _) (Nat.cast_nonneg _))

/-- Only chunks with a term of the query are ranked. -/
theorem searchKb_eq : searchKb env orgId body db =
    (Ranking.cutTop (kbScore env body) (fun c => kbScore env body c ≠ 0) 500 body.k
      (kbRows orgId body db)).map fun c => chunkOut (kbScore env body c) c := by
  rw [searchKb, Ranking.cutTop, Ranking.top, List.filter_map, ← List.map_mergeSort
    (r := fun a b => decide (kbScore env body b ≤ kbScore env body a)) fun _ _ _ _ => rfl,
    ← List.map_take, List.map_map]
  rfl

/-- In every order of the chunks, none that the fund may see and that is missing from the
result scores higher than one in it. -/
def BestChunks (env : Env) (orgId : Uuid) (body : KBSearchRequest) (db : Db) : Prop :=
  ∀ t : Table Uuid KBChunk KBChunk.id, t.rows.Perm db.kbChunks.rows →
    ∀ c ∈ kbRows orgId body db,
      c.id ∉ (searchKb env orgId body { db with kbChunks := t }).map ChunkOut.id →
      ∀ c' ∈ kbRows orgId body db,
        c'.id ∈ (searchKb env orgId body { db with kbChunks := t }).map ChunkOut.id →
        kbScore env body c ≤ kbScore env body c'

theorem bestChunks_iff : BestChunks env orgId body db ↔
    body.k = 0 ∨ (kbRows orgId body db).length ≤ 500 ∨
      (∀ c ∈ kbRows orgId body db, kbScore env body c ≠ 0 →
        ∀ c' ∈ kbRows orgId body db, kbScore env body c' ≤ kbScore env body c) ∨
      (kbRows orgId body db).countP (Ranking.Beaten (kbScore env body) (kbRows orgId body db)) +
        min body.k 500 ≤ 500 := by
  have hids (t : Table Uuid KBChunk KBChunk.id) :
      (searchKb env orgId body { db with kbChunks := t }).map ChunkOut.id =
        (Ranking.cutTop (kbScore env body) (fun c => kbScore env body c ≠ 0) 500 body.k
          (kbRows orgId body { db with kbChunks := t })).map KBChunk.id := by
    rw [searchKb_eq, List.map_map]
    rfl
  have hmem {c : KBChunk} (h : c ∈ kbRows orgId body db) : c ∈ db.kbChunks :=
    (List.mem_filter.mp h).1
  have hkeys {rows' : List KBChunk} (hperm : rows'.Perm (kbRows orgId body db)) :=
    have hsub (y) (hy : y ∈ Ranking.cutTop (kbScore env body) (fun c => kbScore env body c ≠ 0) 500
        body.k rows') : y ∈ kbRows orgId body db :=
      hperm.mem_iff.mp (List.mem_of_mem_take (Ranking.mem_of_mem_top hy).1)
    Ranking.best_iff_keys (kbScore env body) KBChunk.id
      (fun x hx y hy h => Table.eq_of_key (hmem hx) (hmem hy) h) hsub
  have hnodup : (kbRows orgId body db).Nodup := (List.Nodup.of_map _ db.kbChunks.nodup).filter _
  have hbest := @Ranking.cutTop_best_iff _ _ _ (kbScore env body)
    (fun c => kbScore env body c ≠ 0) _ 500 body.k hnodup (by decide)
    fun x _ y _ _ hlt => decide_eq_true ((kbScore_nonneg env body y).trans_lt hlt).ne'
  simp only [decide_eq_true_eq] at hbest
  refine Iff.trans ?_ hbest
  constructor
  · intro h rows' hperm
    rw [hkeys hperm]
    rw [kbRows, ← List.filterMap_eq_filter] at hperm
    obtain ⟨l, hl, hrows⟩ := Ranking.exists_perm_filterMap id (by simp) hperm
    rw [List.filterMap_eq_filter] at hrows
    have ht := h ⟨l, (hl.map _).nodup_iff.mpr db.kbChunks.nodup⟩ hl
    rw [hids, show kbRows orgId body { db with kbChunks := ⟨l, _⟩ } = rows' from hrows] at ht
    exact ht
  · intro h t ht
    rw [hids]
    have hperm : (kbRows orgId body { db with kbChunks := t }).Perm (kbRows orgId body db) :=
      ht.filter _
    exact (hkeys hperm).mp (h _ hperm)

end Chunks

/-- Both searches return the best results in every order of the rows exactly if, for each, there
are no more candidates than are looked at, or no candidate that counts is below the highest
score, or so few candidates are below it that the rest fill the result. -/
theorem search_best_iff (env : Env) (sets : SetOrder) (orgId : Uuid) (q : String) (limit : Nat)
    (body : KBSearchRequest) (db : Db) :
    (BestOpportunities env sets orgId q limit db ∧ BestChunks env orgId body db) ↔
      (limit = 0 ∨ (searchRows env orgId (interpretQuery env sets q) db).length ≤ 200 ∨
        (∀ row ∈ searchRows env orgId (interpretQuery env sets q) db,
          ∀ row' ∈ searchRows env orgId (interpretQuery env sets q) db,
            searchScore env (interpretQuery env sets q) row'.2 ≤
              searchScore env (interpretQuery env sets q) row.2) ∨
        (searchRows env orgId (interpretQuery env sets q) db).countP
          (Ranking.Beaten (fun row => searchScore env (interpretQuery env sets q) row.2)
            (searchRows env orgId (interpretQuery env sets q) db)) + min limit 200 ≤ 200) ∧
      (body.k = 0 ∨ (kbRows orgId body db).length ≤ 500 ∨
        (∀ c ∈ kbRows orgId body db, kbScore env body c ≠ 0 →
          ∀ c' ∈ kbRows orgId body db, kbScore env body c' ≤ kbScore env body c) ∨
        (kbRows orgId body db).countP (Ranking.Beaten (kbScore env body) (kbRows orgId body db)) +
          min body.k 500 ≤ 500) :=
  and_congr bestOpportunities_iff bestChunks_iff

section Late

/-- An opportunity of the fund with one of two companies. -/
def ofCompany (company id : Uuid) : Opportunity where
  id
  orgId := 1
  companyId := company
  origin := .inbound
  title := none
  firstSignalAt := 0
  slaDeadlineAt := 0

def ledgerly : Company where
  id := 1
  name := "Ledgerly"
  normalizedName := "ledgerly"

def quantumLoop : Company where
  id := 2
  name := "Quantum Loop"
  normalizedName := "quantum loop"

def quantumPlan : QueryPlan := interpretQuery asciiEnv .given "quantum"

/-- Two hundred opportunities with a company of no interest, and one with the right company. -/
def lateDb : Db where
  companies := ⟨[ledgerly, quantumLoop], by decide⟩
  opportunities := ⟨(List.range 200).map (ofCompany 1) ++ [ofCompany 2 200], by decide +kernel⟩

theorem quantum_score_lt :
    searchScore asciiEnv quantumPlan ledgerly < searchScore asciiEnv quantumPlan quantumLoop := by
  decide +kernel

theorem searchRow_late (company : Company) {id : Uuid}
    (h : lateDb.companies.find? company.id = some company) :
    searchRow asciiEnv 1 quantumPlan lateDb (ofCompany company.id id) =
      some (ofCompany company.id id, company) := by
  have hcountry : planCountry quantumPlan = none := by decide +kernel
  have hcity : planCity quantumPlan = none := by decide +kernel
  have hplace : meetsPlace asciiEnv quantumPlan company = true := by
    simp [meetsPlace, hcountry, hcity]
  have hcompany : (ofCompany company.id id).companyId = company.id := rfl
  rw [searchRow, hcompany, h]
  simp [hplace, ofCompany]

theorem searchRows_late : searchRows asciiEnv 1 quantumPlan lateDb =
    (List.range 200).map (fun i => (ofCompany 1 i, ledgerly)) ++
      [(ofCompany 2 200, quantumLoop)] := by
  have hearly : ((List.range 200).map (ofCompany 1)).filterMap
      (searchRow asciiEnv 1 quantumPlan lateDb) =
        (List.range 200).map fun i => (ofCompany 1 i, ledgerly) := by
    rw [List.filterMap_map, ← List.filterMap_eq_map]
    exact List.filterMap_congr fun i _ => searchRow_late ledgerly rfl
  have hlast : searchRow asciiEnv 1 quantumPlan lateDb (ofCompany 2 200) =
      some (ofCompany 2 200, quantumLoop) := searchRow_late quantumLoop rfl
  have hlate : [ofCompany 2 200].filterMap (searchRow asciiEnv 1 quantumPlan lateDb) =
      [(ofCompany 2 200, quantumLoop)] := by
    rw [List.filterMap_cons, hlast, List.filterMap_nil]
  rw [searchRows_eq, ← hearly, ← hlate, ← List.filterMap_append]
  rfl

/-- All but the last are below the last. -/
theorem beaten_late : 200 ≤ (searchRows asciiEnv 1 quantumPlan lateDb).countP
    (Ranking.Beaten (fun row => searchScore asciiEnv quantumPlan row.2)
      (searchRows asciiEnv 1 quantumPlan lateDb)) := by
  have hlast : (ofCompany 2 200, quantumLoop) ∈ searchRows asciiEnv 1 quantumPlan lateDb := by
    rw [searchRows_late]
    exact List.mem_append_right _ (List.mem_singleton_self _)
  have hall : ∀ row ∈ (List.range 200).map fun i => (ofCompany 1 i, ledgerly),
      decide (Ranking.Beaten (fun row => searchScore asciiEnv quantumPlan row.2)
        (searchRows asciiEnv 1 quantumPlan lateDb) row) = true := by
    intro row hrow
    obtain ⟨i, -, rfl⟩ := List.mem_map.mp hrow
    exact decide_eq_true ⟨_, hlast, quantum_score_lt⟩
  have hcount := List.countP_eq_length.mpr hall
  rw [List.length_map, List.length_range] at hcount
  refine hcount.symm.le.trans (List.Sublist.countP_le ?_)
  rw [searchRows_late]
  exact List.sublist_append_left _ _

/-- The one opportunity with the word asked for comes too late to be seen. -/
theorem late_opportunity_lost : ¬ BestOpportunities asciiEnv .given 1 "quantum" 1 lateDb := by
  have hplan : interpretQuery asciiEnv .given "quantum" = quantumPlan := rfl
  have hbeaten := beaten_late
  rw [bestOpportunities_iff, hplan]
  rintro (hzero | hfew | hlevel | hbelow)
  · cases hzero
  · have hlength : (searchRows asciiEnv 1 quantumPlan lateDb).length = 201 := by
      simp [searchRows_late]
    omega
  · rw [searchRows_late] at hlevel
    have hle := hlevel (ofCompany 1 0, ledgerly)
      (List.mem_append_left _ (List.mem_map.mpr ⟨0, List.mem_range.mpr (by omega), rfl⟩))
      (ofCompany 2 200, quantumLoop) (List.mem_append_right _ (List.mem_singleton_self _))
    exact absurd quantum_score_lt (not_lt.mpr hle)
  · omega

end Late

end DolphinVC
