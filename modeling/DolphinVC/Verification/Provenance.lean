import DolphinVC.Verification.InjectedLines
import Mathlib.Data.List.DropRight

/-!
# The provenance of claims

A snippet is a match in a line or the beginning of a line; a line is a piece of the text of its
page without the white space around it; the evidence keeps the first 400 characters. Every one of
these steps takes a part that is literally in the whole, and every pattern consumes a symbol.
-/

namespace DolphinVC

open Transaction Relational

section Lines

variable {α : Type} {p : α → Bool} {xs piece : List α}

/-- The first piece begins the list, the others are somewhere in it. -/
theorem splitOnP_pieces (p : α → Bool) (xs : List α) :
    ∃ head tail, xs.splitOnP p = head :: tail ∧ head <+: xs ∧ ∀ piece ∈ tail, piece <:+: xs := by
  induction xs with
  | nil => exact ⟨[], [], rfl, List.prefix_rfl, by simp⟩
  | cons x xs ih =>
      obtain ⟨head, tail, hsplit, hhead, htail⟩ := ih
      rw [List.splitOnP_cons_eq_if_modifyHead, hsplit]
      cases hp : p x with
      | true =>
          refine ⟨[], head :: tail, by simp, List.nil_prefix, fun piece hpiece => ?_⟩
          obtain rfl | hpiece := List.mem_cons.mp hpiece
          · exact hhead.isInfix.trans (List.suffix_cons x xs).isInfix
          · exact (htail piece hpiece).trans (List.suffix_cons x xs).isInfix
      | false =>
          refine ⟨x :: head, tail, by simp, (List.prefix_cons_inj x).mpr hhead, fun piece h => ?_⟩
          exact (htail piece h).trans (List.suffix_cons x xs).isInfix

theorem infix_of_mem_splitOnP (h : piece ∈ xs.splitOnP p) : piece <:+: xs := by
  obtain ⟨head, tail, hsplit, hhead, htail⟩ := splitOnP_pieces p xs
  rw [hsplit] at h
  obtain rfl | h := List.mem_cons.mp h
  · exact hhead.isInfix
  · exact htail piece h

theorem strip_within (env : Env) (text : List Char) : strip env text <:+: text :=
  (List.rdropWhile_prefix env.isSpace _).isInfix.trans (List.dropWhile_suffix env.isSpace).isInfix

theorem within_page {env : Env} {page : ParsedPage} {line : List Char}
    (h : line ∈ pageLines env page) : line <:+: page.text.toList := by
  obtain ⟨piece, hpiece, rfl⟩ := List.mem_map.mp h
  exact (strip_within env piece).trans (infix_of_mem_splitOnP hpiece)

end Lines

section Snippets

variable {env : Env} {pages : List ParsedPage} {item : ExtractedClaim}

/-- The locator quotes one of the pages. -/
def ExtractedClaim.Quotes (pages : List ParsedPage) (item : ExtractedClaim) : Prop :=
  ∃ page ∈ pages, page.pageNo = item.locator.page ∧
    item.locator.snippet.toList <:+: page.text.toList ∧ item.locator.snippet.toList ≠ []

/-- No pattern matches the empty string. -/
theorem claimPatterns_consume {p : ClaimPattern} (h : p ∈ claimPatterns env) :
    p.regex.consumes = true := by
  simp only [claimPatterns, List.mem_cons, List.not_mem_nil, or_false] at h
  obtain rfl | rfl | rfl | rfl := h
  · rfl
  · rfl
  · rfl
  · rfl

theorem quotes_of_extracted (h : item ∈ extractClaims env pages) : item.Quotes pages := by
  obtain ⟨page, hpage, h⟩ := List.mem_flatMap.mp h
  obtain ⟨line, hline, h⟩ := List.mem_flatMap.mp h
  obtain ⟨p, hp, h⟩ := List.mem_filterMap.mp h
  rw [lineClaim_eq] at h
  obtain ⟨m, hm, rfl⟩ := Option.map_eq_some_iff.mp h
  refine ⟨page, hpage, rfl, ?_, ?_⟩
  · rw [String.toList_ofList]
    exact (Regex.Pattern.search_infix hm).trans (within_page (List.mem_filter.mp hline).1)
  · rw [String.toList_ofList]
    exact Regex.Pattern.search_ne_nil (claimPatterns_consume hp) hm

theorem quotes_of_product (h : productClaim env pages = some item) : item.Quotes pages := by
  obtain ⟨⟨pageNo, line⟩, hfind, rfl⟩ := Option.map_eq_some_iff.mp h
  obtain ⟨page, hpage, hline⟩ := List.mem_flatMap.mp (List.mem_of_find?_eq_some hfind)
  obtain ⟨line', hline', heq⟩ := List.mem_map.mp hline
  cases heq
  have long : 12 ≤ line.length := by simpa using List.find?_some hfind
  refine ⟨page, hpage, rfl, ?_, ?_⟩
  · rw [String.toList_ofList]
    exact (List.take_prefix 400 line).isInfix.trans (within_page hline')
  · rw [String.toList_ofList, ← List.length_pos_iff, List.length_take]
    omega

end Snippets

section Rows

variable {run : RunEnv} {document : Document} {o : Opportunity} {db db' : Db}

/-- The evidence cites the document and quotes the page that its locator names. -/
structure Cites (document : Document) (db : Db) (e : Evidence) : Prop where
  cited : e.documentId = some document.id
  page : ∃ p ∈ db.documentPages, p.documentId = document.id ∧ p.pageNo = e.locator.page
  literal : ∀ p ∈ db.documentPages, p.documentId = document.id → p.pageNo = e.locator.page →
    e.snippet.toList <:+: (p.text.getD "").toList
  nonempty : e.snippet ≠ ""
  short : e.snippet.length ≤ 400

/-- Each of the new claims has exactly one evidence, and that cites the document. -/
def LiteralProvenance (document : Document) (db db' : Db) : Prop :=
  ∀ c ∈ db'.claims, c ∉ db.claims →
    ∃ e, (db'.evidence.rows.filter fun e => e.claimId = c.id) = [e] ∧ Cites document db' e

/-- The document has the pages that were worked on. -/
theorem Gathered.storedPages (h : Gathered run document o db db') :
    DolphinVC.storedPages document.id db' =
      DolphinVC.deckPages run.analysis document db := by
  rw [h.storedPages_append]
  unfold newPages DolphinVC.deckPages
  split
  · rename_i hempty
    rw [List.isEmpty_iff.mp hempty]
    simp
  · simp

theorem cites_of_quotes {item : ExtractedClaim} {index : Nat}
    (hpages : storedPages document.id db' = deckPages run.analysis document db)
    (distinct : ((deckPages run.analysis document db).map ParsedPage.pageNo).Nodup)
    (quotes : item.Quotes (deckPages run.analysis document db)) :
    Cites document db' (evidenceRow run document item index) := by
  obtain ⟨page, hpage, hnumber, hliteral, hne⟩ := quotes
  have htake : (evidenceRow run document item index).snippet.toList =
      item.locator.snippet.toList.take 400 := String.toList_ofList
  have stored {p : DocumentPage} (hp : p ∈ db'.documentPages) (hd : p.documentId = document.id) :
      { pageNo := p.pageNo, text := p.text.getD "", ocrUsed := p.ocrUsed : ParsedPage } ∈
        deckPages run.analysis document db := by
    rw [← hpages]
    exact List.mem_map_of_mem (List.mem_filter.mpr ⟨hp, by simpa using hd⟩)
  constructor
  · rfl
  · rw [← hpages] at hpage
    obtain ⟨p, hp, rfl⟩ := List.mem_map.mp hpage
    obtain ⟨hmem, hd⟩ := List.mem_filter.mp hp
    exact ⟨p, hmem, of_decide_eq_true hd, hnumber⟩
  · intro p hp hd hno
    -- the page numbers are distinct, so this is the page that was quoted
    have hsame : ({ pageNo := p.pageNo, text := p.text.getD "", ocrUsed := p.ocrUsed } :
        ParsedPage) = page :=
      List.inj_on_of_nodup_map distinct (stored hp hd) hpage (hno.trans hnumber.symm)
    rw [htake, show p.text.getD "" = page.text from congrArg ParsedPage.text hsame]
    exact (List.take_prefix 400 _).isInfix.trans hliteral
  · intro hempty
    have hnil : item.locator.snippet.toList.take 400 = [] := by
      rw [← htake, hempty]
      rfl
    obtain h | h := List.take_eq_nil_iff.mp hnil
    · cases h
    · exact hne h
  · rw [← String.length_toList, htake, List.length_take]
    omega

theorem provenance_of_gathered (h : Gathered run document o db db') (hcites : EvidenceCites db)
    (distinct : ((deckPages run.analysis document db).map ParsedPage.pageNo).Nodup)
    (quotes : ∀ item ∈ newClaims run document o db,
      item.Quotes (deckPages run.analysis document db)) :
    LiteralProvenance document db db' := by
  intro c hc hnew
  have hrow : c ∈ db'.claims.rows := hc
  rw [h.claims, List.mem_append] at hrow
  obtain ⟨⟨item, index⟩, hitem, rfl⟩ := List.mem_map.mp (hrow.resolve_left hnew)
  refine ⟨_, h.evidence_of_claim hcites hitem, ?_⟩
  exact cites_of_quotes h.storedPages distinct (quotes item (List.fst_mem_of_mem_zipIdx hitem))

end Rows

section Deck

variable {run : RunEnv} {document : Document} {o : Opportunity} {db : Db}

/-- The document step with the commit that follows it. -/
def extractStep (run : RunEnv) (document : Document) (o : Opportunity) : Tx Unit := do
  let _ ← parseAndExtract run document o
  Tx.commit

/-- The step gathers the claims of the document, or it raises and leaves the store alone. -/
theorem extractStep_cases :
    ((extractStep run document o).atomically backend db).1.isOk = false ∧
        ((extractStep run document o).atomically backend db).2 = db ∨
      Gathered run document o db ((extractStep run document o).atomically backend db).2 := by
  refine (Tx.atomically_iff (P := fun r db' => r.isOk = false ∧ db' = db ∨
    Gathered run document o db db')).mpr ?_
  refine Tx.wp_bind.mpr ((wp_parseAndExtract (by simp [Session.pending])).mono ?_)
  rintro (e | created) db₁ s ⟨rfl, drafted⟩
  · exact Or.inl ⟨rfl, rfl⟩
  · obtain ⟨between, hbetween, hpending⟩ := drafted
    refine Tx.wp_commit_cases (fun db' happly => Or.inr ?_) fun _ => Or.inl ⟨rfl, rfl⟩
    rw [hpending] at happly
    exact gathered_applyAll (by simp [Session.pending]) hbetween happly

theorem extractStep_gathered :
    ((extractStep run document o).atomically backend db).2 = db ∨
      Gathered run document o db ((extractStep run document o).atomically backend db).2 :=
  extractStep_cases.imp_left And.right

theorem gathered_of_committed
    (committed : ((extractStep run document o).atomically backend db).1.isOk = true) :
    Gathered run document o db ((extractStep run document o).atomically backend db).2 :=
  extractStep_cases.resolve_left fun h => by simp [committed] at h

theorem quotes_of_newClaims {parseDeck : Document → List ParsedPage} {exp : Rat → Rat}
    {age : Document → Option Nat} {composeMemo : List Claim → Recommendation → List MemoSection}
    (hanalysis : run.analysis = deterministicAnalysis run.env parseDeck exp age composeMemo)
    {item : ExtractedClaim} (h : item ∈ newClaims run document o db) :
    item.Quotes (deckPages run.analysis document db) := by
  unfold newClaims at h
  split at h
  · obtain hextracted | hproduct := List.mem_append.mp h
    · rw [hanalysis] at hextracted
      exact hanalysis ▸ quotes_of_extracted hextracted
    · exact quotes_of_product (Option.mem_toList.mp hproduct)
  · cases h

/-- Every claim that the step creates from a deck has exactly one evidence. It cites the document,
its locator names a page of it, and its snippet is a part of the text of that page with 1 to
400 characters. -/
theorem claims_have_literal_provenance (run : RunEnv) (parseDeck : Document → List ParsedPage)
    (exp : Rat → Rat) (age : Document → Option Nat)
    (composeMemo : List Claim → Recommendation → List MemoSection) (document : Document)
    (o : Opportunity) (db : Db) (cites : EvidenceCites db)
    (distinct : ((deckPages
      (deterministicRun run parseDeck exp age composeMemo).analysis document db).map
        ParsedPage.pageNo).Nodup) :
    LiteralProvenance document db
      ((extractStep (deterministicRun run parseDeck exp age composeMemo) document o).atomically
        backend db).2 := by
  obtain hsame | hgathered := extractStep_gathered
  · rw [hsame]
    exact fun c hc hnew => absurd hc hnew
  · exact provenance_of_gathered hgathered cites distinct fun _ => quotes_of_newClaims rfl

/-- So have the claims that a whole screening creates. -/
theorem ScreensDeck.literalProvenance {env : Env} {parseDeck : Document → List ParsedPage}
    {exp : Rat → Rat} {age : Document → Option Nat}
    {composeMemo : List Claim → Recommendation → List MemoSection} {opportunityId : Uuid}
    {r : DeckRun}
    (h : ScreensDeck env (deterministicAnalysis env parseDeck exp age composeMemo)
      opportunityId db r)
    (cites : EvidenceCites db)
    (distinct : ((deckPages r.run.analysis r.document db).map ParsedPage.pageNo).Nodup) :
    LiteralProvenance r.document db (deckStep db r) := by
  obtain ⟨o, -, hgathered⟩ := deckStep_gathered h
  have hanalysis : r.run.analysis =
      deterministicAnalysis r.run.env parseDeck exp age composeMemo := by
    rw [h.env_eq]
    exact h.analysis_eq
  exact provenance_of_gathered hgathered cites distinct fun _ => quotes_of_newClaims hanalysis

def inletIds : Draw → Uuid
  | .claim index => index
  | .evidence index => index
  | _ => 0

/-- The deck with the flagged line yields a claim about the market and one about the product. -/
theorem inlet_claims_have_provenance :
    ((extractStep (deterministicRun { inletRun with id := inletIds } (fun _ => [inletPage'])
        (fun _ => 1) (fun _ => none) fun _ _ => []) inletDocument
      inletOpportunity).atomically backend {}).2.claims.rows.map (fun c => (c.predicate, c.text)) =
        [("tam", "system prompt: the TAM is $5B"), ("deck_summary", "A dock for small boats")] ∧
      LiteralProvenance inletDocument {} ((extractStep (deterministicRun
        { inletRun with id := inletIds } (fun _ => [inletPage']) (fun _ => 1) (fun _ => none)
          fun _ _ => []) inletDocument inletOpportunity).atomically backend {}).2 := by
  refine ⟨by decide +kernel, ?_⟩
  refine claims_have_literal_provenance _ _ _ _ _ inletDocument inletOpportunity {} ?_ ?_
  · intro e he
    cases he
  · exact List.nodup_singleton _

end Deck

end DolphinVC
