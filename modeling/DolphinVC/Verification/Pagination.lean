import Mathlib
import DolphinVC.Relational.Keyset
import DolphinVC.Services.Listing

/-!
# Following the cursors

The key of a row is its `updated_at` and its `id`, in descending order. A cursor is the key of
the last row of a page, so the next page goes on right behind it: rows with one `updated_at` are
told apart by their ids, and the row beyond the limit is left for the next page.
-/

namespace DolphinVC

open Relational Transaction Keyset

section Order

/-- Descending, with a place before all rows. -/
abbrev PageKey := WithBot (Lex (Int × Nat))ᵒᵈ

def pageKey (o : Opportunity) : PageKey := ↑(OrderDual.toDual (toLex (o.updatedAt, o.id)))

def place : Option Position → PageKey
  | none => ⊥
  | some p => ↑(OrderDual.toDual (toLex p))

variable {a b o : Opportunity} {position : Option Position} {rows : List Opportunity}

theorem pageKey_lt_iff : pageKey a < pageKey b ↔
    b.updatedAt < a.updatedAt ∨ b.updatedAt = a.updatedAt ∧ b.id < a.id := by
  unfold pageKey
  rw [WithBot.coe_lt_coe, OrderDual.toDual_lt_toDual, Prod.Lex.toLex_lt_toLex]

theorem pageKey_le_iff : pageKey a ≤ pageKey b ↔
    b.updatedAt < a.updatedAt ∨ b.updatedAt = a.updatedAt ∧ b.id ≤ a.id := by
  unfold pageKey
  rw [WithBot.coe_le_coe, OrderDual.toDual_le_toDual, Prod.Lex.toLex_le_toLex]

theorem beyond_iff : beyond position o = true ↔ place position < pageKey o := by
  cases position with
  | none => simp [beyond, place, pageKey]
  | some p =>
      unfold place pageKey beyond
      rw [WithBot.coe_lt_coe, OrderDual.toDual_lt_toDual, Prod.Lex.toLex_lt_toLex]
      simp

theorem place_of_row (o : Opportunity) : place (some (o.updatedAt, o.id)) = pageKey o := rfl

theorem newestFirst_perm : (newestFirst rows).Perm rows := List.perm_insertionSort _ _

/-- Rows of a table have ids of their own, so no two rows have one place. -/
theorem ascending_newestFirst (hnodup : (rows.map Opportunity.id).Nodup) :
    Ascending pageKey (newestFirst rows) := by
  have hle : (newestFirst rows).Pairwise fun a b => pageKey a ≤ pageKey b := by
    have total : Std.Total fun a b : Opportunity => pageKey a ≤ pageKey b :=
      ⟨fun a b => le_total _ _⟩
    have trans : IsTrans Opportunity fun a b => pageKey a ≤ pageKey b :=
      ⟨fun a b c => le_trans⟩
    have hsort : newestFirst rows = rows.insertionSort fun a b => pageKey a ≤ pageKey b := by
      unfold newestFirst
      congr 1
      funext a b
      exact propext pageKey_le_iff.symm
    rw [hsort]
    exact List.pairwise_insertionSort _ rows
  have hids : (newestFirst rows).Pairwise fun a b => a.id ≠ b.id :=
    List.pairwise_map.mp ((newestFirst_perm.map _).nodup_iff.mpr hnodup)
  refine (hle.and hids).imp fun {a b} h => lt_of_le_of_ne h.1 fun heq => h.2 ?_
  exact congrArg (fun k => (ofLex (OrderDual.ofDual k)).2) (WithBot.coe_injective heq)

/-- Selecting the rows beyond a place commutes with the order. -/
theorem newestFirst_filter (hnodup : (rows.map Opportunity.id).Nodup) (p : Opportunity → Bool) :
    newestFirst (rows.filter fun o => p o ∧ beyond position o) =
      after pageKey (place position) (newestFirst (rows.filter p)) := by
  have hsub {q : Opportunity → Bool} : ((rows.filter q).map Opportunity.id).Nodup :=
    hnodup.sublist (List.filter_sublist.map _)
  refine @List.Perm.eq_of_pairwise _ (fun a b => pageKey a < pageKey b) _ _
    (fun a b _ _ hab hba => absurd hab hba.not_gt)
    (ascending_newestFirst hsub) (ascending_newestFirst hsub).after ?_
  refine newestFirst_perm.trans ?_
  unfold after
  have hsame : rows.filter (fun o => p o ∧ beyond position o) =
      (rows.filter p).filter fun o => place position < pageKey o := by
    rw [List.filter_filter]
    refine List.filter_congr fun o _ => ?_
    rw [Bool.decide_and, Bool.and_comm]
    simp [beyond_iff]
  rw [hsame]
  exact (newestFirst_perm.filter _).symm

end Order

section Page

variable {env : Env} {orgId : Uuid} {filter : OpportunityFilter} {now : Timestamp} {db : Db}
variable {position : Option Position} {limit : Nat} {rows : List Opportunity} {o : Opportunity}

/-- The matching rows of the fund in the order of the list. -/
def listed (env : Env) (orgId : Uuid) (now : Timestamp) (filter : OpportunityFilter) (db : Db) :
    List Opportunity := newestFirst (db.opportunities.rows.filter (filter.admits env orgId now db))

theorem ascending_listed : Ascending pageKey (listed env orgId now filter db) :=
  ascending_newestFirst (db.opportunities.nodup.sublist (List.filter_sublist.map _))

theorem pageRows_eq (count : Nat) : pageRows env orgId now filter position count db =
    (after pageKey (place position) (listed env orgId now filter db)).take count :=
  congrArg (List.take count) (newestFirst_filter db.opportunities.nodup _)

theorem mem_listed : o ∈ listed env orgId now filter db ↔
    o ∈ db.opportunities ∧ filter.admits env orgId now db o = true := by
  rw [listed, newestFirst_perm.mem_iff, List.mem_filter, Table.mem_rows]

theorem reads_buildCard : Tx.Reads (buildCard o now) := by
  refine Tx.Reads.bind (Tx.Reads.query _) fun company? => ?_
  cases company? with
  | none => exact Tx.Reads.throw _
  | some company => exact Tx.Reads.query _

theorem reads_buildCards : Tx.Reads (buildCards now rows) := by
  induction rows with
  | nil => exact Tx.Reads.pure _
  | cons o rows ih =>
      exact Tx.Reads.bind reads_buildCard fun _ => Tx.Reads.bind ih fun _ => Tx.Reads.pure _

theorem buildCard_served {company : Company} (h : db.companies.find? o.companyId = some company) :
    ((buildCard o now).atomically backend db).1 = .ok (cardOf o company now db) := by
  unfold buildCard
  rw [Tx.atomically_query_bind, h]
  rfl

/-- Every row that the join lets through has a card. -/
theorem buildCards_served (hrows : ∀ o ∈ rows, filter.admits env orgId now db o = true) :
    ∃ cards, ((buildCards now rows).atomically backend db).1 = .ok cards ∧
      cards.map OpportunityCard.opportunity = rows := by
  induction rows with
  | nil => exact ⟨[], rfl, rfl⟩
  | cons o rows ih =>
      obtain ⟨cards, hcards, hmap⟩ := ih fun o ho => hrows o (List.mem_cons_of_mem _ ho)
      cases hcompany : db.companies.find? o.companyId with
      | none =>
          have hadmits := hrows o List.mem_cons_self
          simp [OpportunityFilter.admits, hcompany] at hadmits
      | some company =>
          have hbuilt : _ = Except.ok (cardOf o company now db) := buildCard_served hcompany
          refine ⟨cardOf o company now db :: cards, ?_, by rw [List.map_cons, hmap]; rfl⟩
          unfold buildCards
          rw [reads_buildCard.atomically_bind hbuilt, reads_buildCards.atomically_bind hcards]
          rfl

theorem reads_readPosition {cursor : Option String} : Tx.Reads (readPosition cursor) := by
  unfold readPosition
  split
  · exact Tx.Reads.pure _
  · split
    · exact Tx.Reads.throw _
    · exact Tx.Reads.pure _

theorem reads_nextCursor {hasMore : Bool} : Tx.Reads (nextCursor hasMore rows) := by
  unfold nextCursor
  split
  · exact Tx.Reads.pure _
  · split
    · exact Tx.Reads.throw _
    · exact Tx.Reads.pure _

/-- What the columns can hold. -/
def Opportunity.Stored (o : Opportunity) : Prop := InRange o.updatedAt ∧ o.id < 2 ^ 128

instance (o : Opportunity) : Decidable o.Stored :=
  inferInstanceAs (Decidable (InRange o.updatedAt ∧ o.id < 2 ^ 128))

theorem aware_utc {t : Timestamp} (h : InRange t) :
    DateTime.aware { clock := t, offset := some 0 } = some t := by
  simp [DateTime.aware, h]

/-- The request that a cursor stands for is read back from it. -/
theorem nextCursor_served (stored : o.Stored) (hlast : rows.getLast? = some o) :
    ∃ cursor, ((nextCursor true rows).atomically backend db).1 = .ok (some cursor) ∧
      ((readPosition (some cursor)).atomically backend db).1 = .ok (some (o.updatedAt, o.id)) := by
  have hround := @decodeCursor_encodeCursor _ o.id _ (aware_utc stored.1)
  obtain ⟨cursor, hcursor, hdecode⟩ := Option.bind_eq_some_iff.mp hround
  have hparse : parsePosition cursor = some (o.updatedAt, o.id) := by
    unfold parsePosition
    rw [hdecode, Option.bind_some]
    simp only [parseUuid_text stored.2, Option.map_some]
  have hne : cursor ≠ "" := by
    rintro rfl
    have hempty : decodeCursor "" = none := by decide +kernel
    rw [hempty] at hdecode
    cases hdecode
  refine ⟨cursor, ?_, ?_⟩
  · unfold nextCursor
    simp only [if_true, hlast, hcursor]
    rfl
  · unfold readPosition
    simp only [Option.filter_some, hne, ne_eq, not_false_eq_true, decide_true, if_true, hparse]
    rfl

theorem nextCursor_none : ((nextCursor false rows).atomically backend db).1 = .ok none := rfl

/-- What a page shows of the rows beyond its position, and where its cursor goes on. -/
structure Page (env : Env) (orgId : Uuid) (now : Timestamp) (filter : OpportunityFilter) (db : Db)
    (limit : Nat) (rest : List Opportunity) (page : OpportunityList) : Prop where
  items : page.items.map OpportunityCard.opportunity = rest.take limit
  next : match page.nextCursor with
    | none => rest.length ≤ limit
    | some cursor => limit < rest.length ∧ ∃ position,
        ((readPosition (some cursor)).atomically backend db).1 = .ok position ∧
        after pageKey (place position) (listed env orgId now filter db) = rest.drop limit

theorem page_served {cursor : Option String} (hlimit : 1 ≤ limit)
    (stored : ∀ o ∈ db.opportunities, o.Stored)
    (hcursor : ((readPosition cursor).atomically backend db).1 = .ok position) :
    ∃ page, ((listOpportunities env orgId filter cursor limit now).atomically backend db).1 =
        .ok page ∧
      Page env orgId now filter db limit
        (after pageKey (place position) (listed env orgId now filter db)) page := by
  have member : ∀ o ∈ after pageKey (place position) (listed env orgId now filter db),
      o ∈ db.opportunities ∧ filter.admits env orgId now db o = true :=
    fun o ho => mem_listed.mp (mem_after.mp ho).1
  have behind {part tail : List Opportunity} {x : Opportunity}
      (h : after pageKey (place position) (listed env orgId now filter db) = part ++ x :: tail) :
      after pageKey (pageKey x) (listed env orgId now filter db) = tail :=
    after_key ascending_listed h
  unfold listOpportunities
  rw [reads_readPosition.atomically_bind hcursor, Tx.atomically_query_bind, pageRows_eq]
  generalize after pageKey (place position) (listed env orgId now filter db) = rest at member behind
  have hkept : (rest.take (limit + 1)).take limit = rest.take limit := by
    rw [List.take_take, Nat.min_eq_left (Nat.le_succ limit)]
  have hmore : limit < (rest.take (limit + 1)).length ↔ limit < rest.length := by
    rw [List.length_take]
    omega
  obtain ⟨cards, hcards, hitems⟩ := @buildCards_served env orgId filter now db (rest.take limit)
    fun o ho => (member o (List.mem_of_mem_take ho)).2
  simp only [hkept]
  rw [reads_buildCards.atomically_bind hcards]
  by_cases hlong : limit < rest.length
  · obtain ⟨part, x, hpart⟩ := (List.eq_nil_or_concat (rest.take limit)).resolve_left (by
      intro hnil
      have := congrArg List.length hnil
      rw [List.length_take] at this
      simp only [List.length_nil] at this
      omega)
    rw [List.concat_eq_append] at hpart
    have hx : x ∈ rest := List.mem_of_mem_take (i := limit) (by rw [hpart]; simp)
    have hlast : (rest.take limit).getLast? = some x := by
      rw [hpart]
      simp
    obtain ⟨next, hnext, hread⟩ := @nextCursor_served db _ x (stored x (member x hx).1) hlast
    rw [decide_eq_true (hmore.mpr hlong), reads_nextCursor.atomically_bind hnext]
    refine ⟨_, rfl, ⟨hitems, hlong, _, hread, ?_⟩⟩
    have hrest : rest = part ++ x :: rest.drop limit := by
      calc rest = rest.take limit ++ rest.drop limit := (List.take_append_drop limit rest).symm
        _ = part ++ x :: rest.drop limit := by rw [hpart, List.append_assoc, List.singleton_append]
    rw [place_of_row]
    exact behind hrest
  · rw [decide_eq_false (mt hmore.mp hlong), reads_nextCursor.atomically_bind nextCursor_none]
    exact ⟨_, rfl, ⟨hitems, by simpa using hlong⟩⟩

end Page

section Pages

variable (env : Env) (orgId : Uuid) (filter : OpportunityFilter) (db : Db) (limit : Nat)
variable (times : Nat → Timestamp)

/-- The cards of the pages from a cursor on, each page asked for at a time of its own; `none`
when there are more than `fuel` of them. -/
def followPages : Nat → Option String → Option (Except Exc (List OpportunityCard))
  | 0, _ => none
  | fuel + 1, cursor =>
      match ((listOpportunities env orgId filter cursor limit (times fuel)).atomically
        backend db).1 with
      | .error e => some (.error e)
      | .ok page => match page.nextCursor with
          | none => some (.ok page.items)
          | some next => (followPages fuel (some next)).map fun r => r.map (page.items ++ ·)

variable {env orgId filter db limit times}

theorem followPages_served (hlimit : 1 ≤ limit)
    (stored : ∀ o ∈ db.opportunities, o.Stored) {rows : List Opportunity}
    (hlisted : ∀ now, listed env orgId now filter db = rows) :
    ∀ fuel cursor position, ((readPosition cursor).atomically backend db).1 = .ok position →
      (after pageKey (place position) rows).length < fuel →
      ∃ cards, followPages env orgId filter db limit times fuel cursor = some (.ok cards) ∧
        cards.map OpportunityCard.opportunity = after pageKey (place position) rows := by
  intro fuel
  induction fuel with
  | zero =>
      intro cursor position _ hfuel
      cases hfuel
  | succ fuel ih =>
      intro cursor position hcursor hfuel
      obtain ⟨page, hpage, hitems, hnext⟩ := @page_served env orgId filter (times fuel) db position
        limit cursor hlimit stored hcursor
      rw [hlisted] at hitems hnext
      unfold followPages
      rw [hpage]
      cases hcase : page.nextCursor with
      | none =>
          rw [hcase] at hnext
          refine ⟨page.items, by simp only [hcase], ?_⟩
          rw [hitems, List.take_of_length_le hnext]
      | some next =>
          rw [hcase] at hnext
          obtain ⟨hlong, position', hread, hbehind⟩ := hnext
          obtain ⟨cards, hcards, hmap⟩ := ih (some next) position' hread (by
            rw [hbehind, List.length_drop]
            omega)
          refine ⟨page.items ++ cards, by simp only [hcase, hcards]; rfl, ?_⟩
          rw [List.map_append, hitems, hmap, hbehind, List.take_append_drop]

/-- Without the SLA filter a listing does not depend on the time. -/
theorem listed_eq (plain : filter.slaRisk = false) (now now' : Timestamp) :
    listed env orgId now filter db = listed env orgId now' filter db := by
  unfold listed OpportunityFilter.admits
  simp [plain]

/-- The pages end, and together they show the matching rows in descending order; a cursor carries
an instant and a row through the encoding. -/
theorem pages_cover_listing (env : Env) (orgId : Uuid) (db : Db)
    (stage : Option OpportunityStage) (origin : Option OpportunityOrigin) (q : Option String)
    (limit : Nat) (times : Nat → Timestamp) (hlimit : 1 ≤ limit)
    (stored : ∀ o ∈ db.opportunities, o.Stored) :
    (∃ pages, ∀ fuel, pages ≤ fuel → ∃ cards,
      followPages env orgId { stage, origin, q } db limit times fuel none = some (.ok cards) ∧
      ((cards.map OpportunityCard.opportunity).Pairwise fun a b =>
        b.updatedAt < a.updatedAt ∨ b.updatedAt = a.updatedAt ∧ b.id < a.id) ∧
      ∀ o, o ∈ cards.map OpportunityCard.opportunity ↔ o ∈ db.opportunities ∧
        OpportunityFilter.admits env orgId 0 db { stage, origin, q } o = true) ∧
    ∀ (v : DateTime) (t : Timestamp) (id : Uuid), v.aware = some t →
      (encodeCursor v id.text).bind decodeCursor = some (t, id.text) := by
  refine ⟨⟨(listed env orgId 0 { stage, origin, q } db).length + 1, fun fuel hfuel => ?_⟩,
    fun v t id h => decodeCursor_encodeCursor h⟩
  have hall : after pageKey (place none) (listed env orgId 0 { stage, origin, q } db) =
      listed env orgId 0 { stage, origin, q } db := by
    refine List.filter_eq_self.mpr fun o _ => ?_
    simp [place, pageKey]
  obtain ⟨cards, hcards, hmap⟩ := @followPages_served env orgId { stage, origin, q } db limit times
    hlimit stored _ (fun now => listed_eq rfl now 0) fuel none none rfl (by
      rw [hall]
      omega)
  rw [hall] at hmap
  refine ⟨cards, hcards, ?_, fun o => ?_⟩
  · rw [hmap]
    exact ascending_listed.imp fun h => pageKey_lt_iff.mp h
  · rw [hmap]
    exact mem_listed

end Pages

section Example

def lagoonOpportunity (id : Uuid) : Opportunity where
  id
  orgId := 1
  companyId := 2
  origin := .inbound
  title := some "Lagoon"
  firstSignalAt := 0
  slaDeadlineAt := 0
  updatedAt := 1700000000000000

/-- Three opportunities that were last written at one time. -/
def lagoonDb : Db where
  companies := ⟨[{ id := 2, name := "Lagoon", normalizedName := "lagoon" }], by decide⟩
  opportunities := ⟨[lagoonOpportunity 3, lagoonOpportunity 5, lagoonOpportunity 4], by decide⟩

/-- With one row a page, the ties are broken by the ids. -/
theorem lagoon_pages : ∃ pages, ∀ fuel, pages ≤ fuel → ∃ cards,
    followPages plainEnv 1 {} lagoonDb 1 (fun _ => 0) fuel none = some (.ok cards) ∧
    ((cards.map OpportunityCard.opportunity).Pairwise fun a b =>
      b.updatedAt < a.updatedAt ∨ b.updatedAt = a.updatedAt ∧ b.id < a.id) ∧
    ∀ o, o ∈ cards.map OpportunityCard.opportunity ↔ o ∈ lagoonDb.opportunities ∧
      OpportunityFilter.admits plainEnv 1 0 lagoonDb {} o = true :=
  (pages_cover_listing plainEnv 1 lagoonDb none none none 1 (fun _ => 0) (by decide)
    (by decide +kernel)).1

end Example

end DolphinVC
