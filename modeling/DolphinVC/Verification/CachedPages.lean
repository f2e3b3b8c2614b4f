import DolphinVC.Verification.FlaggedClaims

/-!
# Stored pages and a fresh parse

A document that has been parsed before is read back from its stored pages, and the query that
reads them asks for no order. The claims come in the order of the pages that yield any, and the
claim about the product from the first page with a long line. Since each claim names its page,
the claims are those of a fresh parse exactly when both are as in the deck.
-/

namespace DolphinVC

section Blocks

variable {α β : Type} {f : α → List β} {key : α → β}

/-- Blocks that are not empty and repeat a key of their own can be told apart. -/
theorem eq_of_flatMap_eq (label : ∀ a, ∀ b ∈ f a, b = key a) {xs ys : List α}
    (hxs : ∀ a ∈ xs, f a ≠ []) (hys : ∀ a ∈ ys, f a ≠ [])
    (inj : ∀ a ∈ xs, ∀ b ∈ ys, key a = key b → a = b) (h : xs.flatMap f = ys.flatMap f) :
    xs = ys := by
  induction xs generalizing ys with
  | nil =>
      cases ys with
      | nil => rfl
      | cons y ys =>
          have hempty : f y = [] := by
            simp only [List.flatMap_nil, List.flatMap_cons] at h
            exact (List.append_eq_nil_iff.mp h.symm).1
          exact absurd hempty (hys y List.mem_cons_self)
  | cons x xs ih =>
      obtain ⟨b, bs, hx⟩ := List.exists_cons_of_ne_nil (hxs x List.mem_cons_self)
      cases ys with
      | nil => simp [hx] at h
      | cons y ys =>
          obtain ⟨c, cs, hy⟩ := List.exists_cons_of_ne_nil (hys y List.mem_cons_self)
          have hhead : b = c := by
            rw [List.flatMap_cons, List.flatMap_cons, hx, hy] at h
            exact (List.cons.inj h).1
          have hkey : key x = key y :=
            (label x b (hx ▸ List.mem_cons_self)).symm.trans
              (hhead.trans (label y c (hy ▸ List.mem_cons_self)))
          obtain rfl := inj x List.mem_cons_self y List.mem_cons_self hkey
          rw [List.flatMap_cons, List.flatMap_cons] at h
          rw [ih (fun a ha => hxs a (List.mem_cons_of_mem x ha))
            (fun a ha => hys a (List.mem_cons_of_mem x ha))
            (fun a ha b hb => inj a (List.mem_cons_of_mem x ha) b (List.mem_cons_of_mem x hb))
            (List.append_cancel_left h)]

theorem flatMap_filter {p : α → Bool} (h : ∀ a, p a = false → f a = []) (xs : List α) :
    (xs.filter p).flatMap f = xs.flatMap f := by
  induction xs with
  | nil => rfl
  | cons x xs ih =>
      rw [List.filter_cons, List.flatMap_cons]
      cases hp : p x with
      | true => simp [ih]
      | false => simp [ih, h x hp]

end Blocks

section Pages

variable (env : Env)

/-- Some pattern finds something on the page. -/
def yieldsClaims (page : ParsedPage) : Bool :=
  ((pageLines env page).filter fun line => !line.isEmpty).any (yields env)

/-- The page has a line that is long enough for the claim about the product. -/
def summarizes (page : ParsedPage) : Bool :=
  (pageLines env page).any fun line => 12 ≤ line.length

/-- The pages that yield claims come in the same order, and the same page comes first among
those with a long line. -/
structure SameReading (pages pages' : List ParsedPage) : Prop where
  yielding : pages'.filter (yieldsClaims env) = pages.filter (yieldsClaims env)
  summary : pages'.find? (summarizes env) = pages.find? (summarizes env)

variable {env} {page : ParsedPage} {pages pages' : List ParsedPage}

theorem pageClaims_eq_nil_iff : pageClaims env page = [] ↔ yieldsClaims env page = false := by
  rw [← map_item_pageSources, List.map_eq_nil_iff]
  unfold pageSources yieldsClaims
  rw [List.flatMap_eq_nil_iff, List.any_eq_false]
  refine forall₂_congr fun line _ => ?_
  constructor
  · intro hnil hyields
    obtain ⟨s, hs⟩ := lineSources_ne_nil page.pageNo hyields
    rw [hnil] at hs
    cases hs
  · intro hyields
    rw [List.eq_nil_iff_forall_not_mem]
    exact fun s hs => hyields (mem_lineSources hs).2.1

theorem page_of_pageClaims {item : ExtractedClaim} (h : item ∈ pageClaims env page) :
    item.locator.page = page.pageNo ∧ item.category ≠ .product := by
  obtain ⟨line, -, h⟩ := List.mem_flatMap.mp h
  obtain ⟨p, hp, h⟩ := List.mem_filterMap.mp h
  rw [lineClaim_eq] at h
  obtain ⟨m, -, rfl⟩ := Option.map_eq_some_iff.mp h
  refine ⟨rfl, ?_⟩
  simp only [claimPatterns, List.mem_cons, List.not_mem_nil, or_false] at hp
  obtain rfl | rfl | rfl | rfl := hp
  · simp
  · simp
  · simp
  · simp

theorem extractClaims_filter :
    extractClaims env (pages.filter (yieldsClaims env)) = extractClaims env pages :=
  flatMap_filter (fun _ h => pageClaims_eq_nil_iff.mpr h) pages

theorem longLine_of_summarizes (h : summarizes env page = true) :
    ∃ line, ((pageLines env page).find? fun line => 12 ≤ line.length) = some line :=
  Option.isSome_iff_exists.mp (List.find?_isSome.mpr (List.any_eq_true.mp h))

/-- The first long line is on the first page with one. -/
theorem productLine_eq : productLine env pages = (pages.find? (summarizes env)).bind fun page =>
    ((pageLines env page).find? fun line => 12 ≤ line.length).map fun line =>
      (page.pageNo, line) := by
  induction pages with
  | nil => rfl
  | cons page pages ih =>
      have hpage : (((pageLines env page).map fun line => (page.pageNo, line)).find?
          fun line => decide (12 ≤ line.2.length)) =
            ((pageLines env page).find? fun line => 12 ≤ line.length).map fun line =>
              (page.pageNo, line) := List.find?_map
      rw [productLine] at ih ⊢
      rw [List.flatMap_cons, List.find?_append, ih, hpage, List.find?_cons]
      cases hlong : summarizes env page with
      | true =>
          obtain ⟨line, hline⟩ := longLine_of_summarizes hlong
          simp [hline]
      | false =>
          have hnone : ((pageLines env page).find? fun line => 12 ≤ line.length) = none := by
            rw [List.find?_eq_none]
            exact List.any_eq_false.mp hlong
          simp [hnone]

theorem productPage_eq :
    (productClaim env pages).map (fun item => item.locator.page) =
      (pages.find? (summarizes env)).map ParsedPage.pageNo := by
  rw [productClaim_eq, productLine_eq, Option.map_map]
  cases hfind : pages.find? (summarizes env) with
  | none => rfl
  | some page =>
      obtain ⟨line, hline⟩ := longLine_of_summarizes (List.find?_some hfind)
      simp [hline, productOf]

/-- What the rows say about where a claim comes from. -/
def ExtractedClaim.origin (item : ExtractedClaim) : ClaimCategory × Nat :=
  (item.category, item.locator.page)

/-- The category tells the claim about the product from the others. -/
theorem origin_split :
    ((extractClaims env pages ++ (productClaim env pages).toList).map
        ExtractedClaim.origin).filter (fun o => o.1 ≠ .product) =
      (extractClaims env pages).map ExtractedClaim.origin ∧
    ((extractClaims env pages ++ (productClaim env pages).toList).map
        ExtractedClaim.origin).filter (fun o => o.1 = .product) =
      (productClaim env pages).toList.map ExtractedClaim.origin := by
  have hextracted : ∀ o ∈ (extractClaims env pages).map ExtractedClaim.origin,
      o.1 ≠ .product := by
    intro o ho
    obtain ⟨item, hitem, rfl⟩ := List.mem_map.mp ho
    obtain ⟨page, -, hpage⟩ := List.mem_flatMap.mp hitem
    exact (page_of_pageClaims hpage).2
  have hproduct : ∀ o ∈ (productClaim env pages).toList.map ExtractedClaim.origin,
      o.1 = .product := by
    intro o ho
    obtain ⟨item, hitem, rfl⟩ := List.mem_map.mp ho
    rw [productClaim_eq, Option.mem_toList, Option.map_eq_some_iff] at hitem
    obtain ⟨source, -, rfl⟩ := hitem
    rfl
  rw [List.map_append, List.filter_append, List.filter_append]
  constructor
  · rw [List.filter_eq_self.mpr (by simpa using hextracted),
      List.filter_eq_nil_iff.mpr (by simpa using hproduct), List.append_nil]
  · rw [List.filter_eq_nil_iff.mpr (by simpa using hextracted),
      List.filter_eq_self.mpr (by simpa using hproduct), List.nil_append]

/-- Claims with the same origins come from pages in the same order. -/
theorem sameReading_of_origins (perm : pages'.Perm pages)
    (distinct : (pages.map ParsedPage.pageNo).Nodup)
    (h : (extractClaims env pages' ++ (productClaim env pages').toList).map
        ExtractedClaim.origin =
      (extractClaims env pages ++ (productClaim env pages).toList).map ExtractedClaim.origin) :
    SameReading env pages pages' := by
  have inj : ∀ a ∈ pages', ∀ b ∈ pages, a.pageNo = b.pageNo → a = b :=
    fun a ha b hb => List.inj_on_of_nodup_map distinct (perm.mem_iff.mp ha) hb
  constructor
  · have horigins : (extractClaims env pages').map ExtractedClaim.origin =
        (extractClaims env pages).map ExtractedClaim.origin := by
      rw [← origin_split.1, ← origin_split.1, h]
    have hpages : (pages'.filter (yieldsClaims env)).flatMap
          (fun page => (pageClaims env page).map fun item => item.locator.page) =
        (pages.filter (yieldsClaims env)).flatMap
          fun page => (pageClaims env page).map fun item => item.locator.page := by
      have hnumbers := congrArg (List.map Prod.snd) horigins
      have hfilter (pages : List ParsedPage) : extractClaims env pages =
          extractClaims env (pages.filter (yieldsClaims env)) := extractClaims_filter.symm
      rw [hfilter pages', hfilter pages] at hnumbers
      simpa [extractClaims, List.map_flatMap, ExtractedClaim.origin, Function.comp_def]
        using hnumbers
    have label : ∀ page : ParsedPage, ∀ number ∈ (pageClaims env page).map fun item =>
        item.locator.page, number = page.pageNo := by
      intro page number hnumber
      obtain ⟨item, hitem, rfl⟩ := List.mem_map.mp hnumber
      exact (page_of_pageClaims hitem).1
    refine eq_of_flatMap_eq label ?_ ?_ ?_ hpages
    · intro page hpage
      rw [Ne, List.map_eq_nil_iff, pageClaims_eq_nil_iff, (List.mem_filter.mp hpage).2]
      simp
    · intro page hpage
      rw [Ne, List.map_eq_nil_iff, pageClaims_eq_nil_iff, (List.mem_filter.mp hpage).2]
      simp
    · exact fun a ha b hb => inj a (List.mem_of_mem_filter ha) b (List.mem_of_mem_filter hb)
  · have horigins : (productClaim env pages').toList.map ExtractedClaim.origin =
        (productClaim env pages).toList.map ExtractedClaim.origin := by
      rw [← origin_split.2, ← origin_split.2, h]
    have hnumbers : (pages'.find? (summarizes env)).map ParsedPage.pageNo =
        (pages.find? (summarizes env)).map ParsedPage.pageNo := by
      rw [← productPage_eq, ← productPage_eq]
      cases hp : productClaim env pages <;> cases hp' : productClaim env pages' <;>
        simp_all [ExtractedClaim.origin]
    cases hfind' : pages'.find? (summarizes env) with
    | none =>
        rw [hfind'] at hnumbers
        exact (Option.map_eq_none_iff.mp hnumbers.symm).symm
    | some page' =>
        rw [hfind'] at hnumbers
        obtain ⟨page, hfind, hnumber⟩ := Option.map_eq_some_iff.mp hnumbers.symm
        rw [hfind, inj page' (List.mem_of_find?_eq_some hfind') page
          (List.mem_of_find?_eq_some hfind) hnumber.symm]

theorem extracted_of_sameReading (h : SameReading env pages pages') :
    extractClaims env pages' ++ (productClaim env pages').toList =
      extractClaims env pages ++ (productClaim env pages).toList := by
  have hproduct : productClaim env pages' = productClaim env pages := by
    rw [productClaim_eq, productClaim_eq, productLine_eq, productLine_eq, h.summary]
  rw [← extractClaims_filter, h.yielding, extractClaims_filter, hproduct]

end Pages

section Rows

/-- Both steps have added the same claims with the same evidence. -/
structure SameClaims (before after before' after' : Db) : Prop where
  claims : after.claims.rows.drop before.claims.rows.length =
    after'.claims.rows.drop before'.claims.rows.length
  evidence : after.evidence.rows.drop before.evidence.rows.length =
    after'.evidence.rows.drop before'.evidence.rows.length

variable {run : RunEnv} {document : Document} {o : Opportunity} {db db' : Db}
variable {items items' : List ExtractedClaim}

theorem map_origin_of_rows
    (hclaims : claimRows run document o items' 0 = claimRows run document o items 0)
    (hevidence : evidenceRows run document items' 0 = evidenceRows run document items 0) :
    items'.map ExtractedClaim.origin = items.map ExtractedClaim.origin := by
  have numbers (items : List ExtractedClaim) :
      (evidenceRows run document items 0).map (fun e => e.locator.page) =
        items.map fun item => item.locator.page := by
    rw [evidenceRows, List.map_map]
    exact map_zipIdx_fst (fun item => item.locator.page) items 0
  have origins (items : List ExtractedClaim) : items.map ExtractedClaim.origin =
      (items.map ExtractedClaim.category).zip (items.map fun item => item.locator.page) := by
    rw [List.zip_map']
    rfl
  rw [origins, origins, ← map_category_claimRows items' 0, ← map_category_claimRows items 0,
    ← numbers, ← numbers, hclaims, hevidence]

end Rows

/-- For a document whose pages are stored the step adds the claims of a fresh parse exactly when
the query returns the pages that yield claims in the order of the deck and, of those with a long
line, the first of the deck first. -/
theorem cached_pages_same_claims_iff (run : RunEnv) (parseDeck : Document → List ParsedPage)
    (exp : Rat → Rat) (age : Document → Option Nat)
    (composeMemo : List Claim → Recommendation → List MemoSection) (document : Document)
    (o : Opportunity) (db db' : Db)
    (distinct : ((parseDeck document).map ParsedPage.pageNo).Nodup)
    (fresh : storedPages document.id db = [])
    (cached : (storedPages document.id db').Perm (parseDeck document))
    (unclaimed : opportunityClaims o.id db = []) (unclaimed' : opportunityClaims o.id db' = [])
    (committed : Extracts (deterministicRun run parseDeck exp age composeMemo) document o db)
    (committed' : Extracts (deterministicRun run parseDeck exp age composeMemo) document o db') :
    SameClaims db' (extracted (deterministicRun run parseDeck exp age composeMemo) document o db')
        db (extracted (deterministicRun run parseDeck exp age composeMemo) document o db) ↔
      SameReading run.env (parseDeck document) (storedPages document.id db') := by
  set screening := deterministicRun run parseDeck exp age composeMemo with hscreening
  have hfresh : newClaims screening document o db =
      extractClaims run.env (parseDeck document) ++
        (productClaim run.env (parseDeck document)).toList := by
    simp only [newClaims, unclaimed, deckPages, fresh, List.isEmpty_nil, if_true]
    rfl
  have hpages : deckPages screening.analysis document db' = storedPages document.id db' := by
    unfold deckPages
    split
    · rename_i hempty
      rw [List.isEmpty_iff.mp hempty] at cached ⊢
      exact cached.nil_eq.symm
    · rfl
  have hcached : newClaims screening document o db' =
      extractClaims run.env (storedPages document.id db') ++
        (productClaim run.env (storedPages document.id db')).toList := by
    simp only [newClaims, unclaimed', hpages, List.isEmpty_nil, if_true]
    rfl
  have gathered := gathered_of_committed committed
  have gathered' := gathered_of_committed committed'
  have hclaims : (extracted screening document o db).claims.rows.drop db.claims.rows.length =
      claimRows screening document o (newClaims screening document o db) 0 := by
    rw [extracted, gathered.claims, List.drop_left]
  have hclaims' : (extracted screening document o db').claims.rows.drop db'.claims.rows.length =
      claimRows screening document o (newClaims screening document o db') 0 := by
    rw [extracted, gathered'.claims, List.drop_left]
  have hevidence : (extracted screening document o db).evidence.rows.drop db.evidence.rows.length =
      evidenceRows screening document (newClaims screening document o db) 0 := by
    rw [extracted, gathered.evidence, List.drop_left]
  have hevidence' :
      (extracted screening document o db').evidence.rows.drop db'.evidence.rows.length =
        evidenceRows screening document (newClaims screening document o db') 0 := by
    rw [extracted, gathered'.evidence, List.drop_left]
  constructor
  · rintro ⟨sameClaims, sameEvidence⟩
    rw [hclaims, hclaims'] at sameClaims
    rw [hevidence, hevidence'] at sameEvidence
    have horigins := map_origin_of_rows sameClaims sameEvidence
    rw [hfresh, hcached] at horigins
    exact sameReading_of_origins cached distinct horigins
  · intro h
    have hitems : newClaims screening document o db' = newClaims screening document o db := by
      rw [hfresh, hcached, extracted_of_sameReading h]
    constructor
    · rw [hclaims, hclaims', hitems]
    · rw [hevidence, hevidence', hitems]

section Example

def dockPages : List ParsedPage :=
  [{ pageNo := 1, text := "We serve 120 customers" }, { pageNo := 2, text := "The TAM is $5B" }]

/-- The query returns the pages as they are in the deck. -/
def dockInOrder : Db where
  documentPages := ⟨dockPages.map (pageRow inletDocument), by decide⟩

def dockReversed : Db where
  documentPages := ⟨dockPages.reverse.map (pageRow inletDocument), by decide⟩

/-- The claims of the second page come first and the product is described by its line. -/
theorem reversed_pages_change_the_claims :
    ¬ ∀ (run : RunEnv) (parseDeck : Document → List ParsedPage) (exp : Rat → Rat)
      (age : Document → Option Nat)
      (composeMemo : List Claim → Recommendation → List MemoSection) (document : Document)
      (o : Opportunity) (db db' : Db), ((parseDeck document).map ParsedPage.pageNo).Nodup →
      storedPages document.id db = [] →
      (storedPages document.id db').Perm (parseDeck document) →
      opportunityClaims o.id db = [] → opportunityClaims o.id db' = [] →
      Extracts (deterministicRun run parseDeck exp age composeMemo) document o db →
      Extracts (deterministicRun run parseDeck exp age composeMemo) document o db' →
      SameClaims db' (extracted (deterministicRun run parseDeck exp age composeMemo) document o db')
        db (extracted (deterministicRun run parseDeck exp age composeMemo) document o db) := by
  intro h
  have same := h { inletRun with id := inletIds } (fun _ => dockPages) (fun _ => 1)
    (fun _ => some 0) (fun _ _ => []) inletDocument inletOpportunity {} dockReversed
    (by decide) rfl (List.reverse_perm dockPages) rfl rfl (by decide +kernel) (by decide +kernel)
  exact absurd (congrArg (List.map fun e => e.locator.page) same.evidence) (by decide +kernel)

theorem ordered_pages_keep_the_claims :
    (dockPages.map ParsedPage.pageNo).Nodup ∧ storedPages inletDocument.id {} = [] ∧
    (storedPages inletDocument.id dockInOrder).Perm dockPages ∧
    SameClaims dockInOrder
      (extracted (deterministicRun { inletRun with id := inletIds } (fun _ => dockPages)
        (fun _ => 1) (fun _ => some 0) fun _ _ => []) inletDocument inletOpportunity dockInOrder)
      {} (extracted (deterministicRun { inletRun with id := inletIds } (fun _ => dockPages)
        (fun _ => 1) (fun _ => some 0) fun _ _ => []) inletDocument inletOpportunity {}) := by
  have distinct : (dockPages.map ParsedPage.pageNo).Nodup := by decide
  have cached : (storedPages inletDocument.id dockInOrder).Perm dockPages := .refl dockPages
  exact ⟨distinct, rfl, cached, (cached_pages_same_claims_iff { inletRun with id := inletIds }
    (fun _ => dockPages) (fun _ => 1) (fun _ => some 0) (fun _ _ => []) inletDocument
    inletOpportunity {} dockInOrder distinct rfl cached rfl rfl (by decide +kernel)
    (by decide +kernel)).mpr ⟨rfl, rfl⟩⟩

end Example

end DolphinVC
