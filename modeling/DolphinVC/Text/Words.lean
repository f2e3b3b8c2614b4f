import DolphinVC.Text.Replace
import Mathlib.Data.List.Chain
import Mathlib.Data.List.DropRight

/-!
# Words and phrases of a text

A word is a run of characters that pass a test, and no word goes on over either of its ends. A
phrase begins and ends inside a word and has never two characters outside words in a row. An
occurrence of it is delimited if it is made of whole words. Where every occurrence is,
replacing them by blanks takes whole words out of the text, and no new occurrence of any phrase
comes about: `Cut` is the relation between the text and what is left of it.
-/

namespace Text

section Words

variable {α : Type*} {inWord : α → Bool} {x y u v s r : List α} {c d : α}

theorem takeWhile_append_of_exists (h : ∃ c ∈ y, inWord c = false) (v : List α) :
    (y ++ v).takeWhile inWord = y.takeWhile inWord := by
  induction y with
  | nil => simp at h
  | cons d y ih =>
      rw [List.cons_append, List.takeWhile_cons, List.takeWhile_cons]
      cases hd : inWord d with
      | false => rfl
      | true =>
          obtain ⟨c, hc, hfalse⟩ := h
          cases hc with
          | head => rw [hd] at hfalse; cases hfalse
          | tail _ hc => rw [if_pos rfl, if_pos rfl, ih ⟨c, hc, hfalse⟩]

theorem rtakeWhile_append_of_exists (h : ∃ c ∈ x, inWord c = false) (u : List α) :
    (u ++ x).rtakeWhile inWord = x.rtakeWhile inWord := by
  rw [List.rtakeWhile, List.rtakeWhile, List.reverse_append, takeWhile_append_of_exists]
  obtain ⟨c, hc, hfalse⟩ := h
  exact ⟨c, List.mem_reverse.mpr hc, hfalse⟩

theorem takeWhile_append_cons (hd : inWord d = false) (y v : List α) :
    (y ++ d :: v).takeWhile inWord = y.takeWhile inWord := by
  induction y with
  | nil => simp [hd]
  | cons c y ih => rw [List.cons_append, List.takeWhile_cons, List.takeWhile_cons, ih]

theorem rtakeWhile_append_cons (hd : inWord d = false) (u x : List α) :
    (u ++ d :: x).rtakeWhile inWord = x.rtakeWhile inWord := by
  rw [List.rtakeWhile, List.rtakeWhile, List.reverse_append, List.reverse_cons, List.append_assoc,
    List.singleton_append, takeWhile_append_cons hd]

theorem takeWhile_of_append (h : (y ++ v).takeWhile inWord = []) : y.takeWhile inWord = [] := by
  cases y with
  | nil => rfl
  | cons d y => cases hd : inWord d <;> simp [hd] at h ⊢

theorem rtakeWhile_of_append (h : (u ++ x).rtakeWhile inWord = []) : x.rtakeWhile inWord = [] := by
  rw [List.rtakeWhile, List.reverse_append, List.reverse_eq_nil_iff] at h
  rw [List.rtakeWhile, takeWhile_of_append h, List.reverse_nil]

/-- A list with nothing of a word at one end has a character outside words, if it has any. -/
theorem stop_of_takeWhile (h : y.takeWhile inWord = []) (hy : y ≠ []) :
    ∃ c ∈ y, inWord c = false := by
  cases y with
  | nil => exact absurd rfl hy
  | cons d y =>
      refine ⟨d, List.mem_cons_self, ?_⟩
      cases hd : inWord d with
      | false => rfl
      | true => simp [hd] at h

theorem stop_of_rtakeWhile (h : x.rtakeWhile inWord = []) (hx : x ≠ []) :
    ∃ c ∈ x, inWord c = false := by
  rw [List.rtakeWhile, List.reverse_eq_nil_iff] at h
  obtain ⟨c, hc, hfalse⟩ := stop_of_takeWhile h (by simpa using hx)
  exact ⟨c, List.mem_reverse.mp hc, hfalse⟩

variable (inWord)

/-- No word goes on over the end of `x` or over the start of `y`. -/
def Delimited (x y : List α) : Prop := x.rtakeWhile inWord = [] ∧ y.takeWhile inWord = []

instance [DecidableEq α] (x y : List α) : Decidable (Delimited inWord x y) :=
  inferInstanceAs (Decidable (_ ∧ _))

def IsWord (w : List α) : Prop := w ≠ [] ∧ ∀ c ∈ w, inWord c = true

instance [DecidableEq α] (w : List α) : Decidable (IsWord inWord w) :=
  inferInstanceAs (Decidable (_ ∧ _))

def HasWord (text w : List α) : Prop := ∃ x y, text = x ++ w ++ y ∧ Delimited inWord x y

structure IsPhrase (p : List α) : Prop where
  first : ∃ c q, p = c :: q ∧ inWord c = true
  last : ∃ q c, p = q ++ [c] ∧ inWord c = true
  chain : p.IsChain fun c d => inWord c = true ∨ inWord d = true

variable {inWord}

theorem Delimited.of_append_left (h : Delimited inWord (u ++ x) y) : Delimited inWord x y :=
  ⟨rtakeWhile_of_append h.1, h.2⟩

theorem rtakeWhile_of_last (u : List α) (hc : inWord c = true) :
    (u ++ [c]).rtakeWhile inWord ≠ [] := by
  rw [List.rtakeWhile_concat_pos inWord u c hc]
  simp

theorem takeWhile_of_first (v : List α) (hc : inWord c = true) :
    (c :: v).takeWhile inWord ≠ [] := by
  simp [hc]

namespace IsPhrase

variable {p : List α}

theorem of_ends (hfirst : p.head?.any inWord = true) (hlast : p.getLast?.any inWord = true)
    (hchain : p.IsChain fun c d => inWord c = true ∨ inWord d = true) : IsPhrase inWord p where
  first := by
    cases p with
    | nil => cases hfirst
    | cons c q => exact ⟨c, q, rfl, hfirst⟩
  last := by
    cases p using List.reverseRecOn with
    | nil => cases hlast
    | append_singleton q c => exact ⟨q, c, rfl, by simpa using hlast⟩
  chain := hchain

theorem mono {inWord' : α → Bool} (hp : IsPhrase inWord p)
    (h : ∀ c, inWord c = true → inWord' c = true) : IsPhrase inWord' p where
  first := by
    obtain ⟨c, q, hq, hc⟩ := hp.first
    exact ⟨c, q, hq, h c hc⟩
  last := by
    obtain ⟨q, c, hq, hc⟩ := hp.last
    exact ⟨q, c, hq, h c hc⟩
  chain := hp.chain.imp fun _ _ hcd => hcd.imp (h _) (h _)

theorem ne_nil (hp : IsPhrase inWord p) : p ≠ [] := by
  obtain ⟨c, q, rfl, -⟩ := hp.first
  exact List.cons_ne_nil c q

/-- No list ends in a phrase where no word ends. -/
theorem not_last (hp : IsPhrase inWord p) (h : (u ++ p).rtakeWhile inWord = []) : False := by
  obtain ⟨q, c, rfl, hc⟩ := hp.last
  rw [← List.append_assoc] at h
  exact rtakeWhile_of_last _ hc h

theorem not_first (hp : IsPhrase inWord p) (h : (p ++ v).takeWhile inWord = []) : False := by
  obtain ⟨c, q, rfl, hc⟩ := hp.first
  exact takeWhile_of_first _ hc h

/-- Before a character outside words there is one of a word. -/
theorem before (hp : IsPhrase inWord (u ++ d :: v)) (hd : inWord d = false) :
    u.rtakeWhile inWord ≠ [] := by
  cases u using List.reverseRecOn with
  | nil =>
      obtain ⟨c, q, heq, hc⟩ := hp.first
      obtain ⟨rfl, -⟩ := List.cons.inj heq
      rw [hd] at hc
      cases hc
  | append_singleton u c =>
      have hchain := hp.chain
      rw [List.append_assoc, List.singleton_append] at hchain
      have hc := (List.isChain_append_cons_cons.mp hchain).2.1
      rw [hd] at hc
      exact rtakeWhile_of_last u (hc.resolve_right Bool.false_ne_true)

/-- A phrase next to a blank that no word touches stands on one side of it. -/
theorem beside (hp : IsPhrase inWord p) (hd : inWord d = false) (hs : s.rtakeWhile inWord = [])
    (h : s ++ d :: r = x ++ p ++ y) :
    (∃ m, s = x ++ p ++ m ∧ y = m ++ d :: r) ∨ ∃ m, r = m ++ p ++ y ∧ x = s ++ d :: m := by
  rw [List.append_assoc] at h
  obtain ⟨m, rfl, hr⟩ | ⟨m, rfl, hy⟩ := List.append_eq_append_iff.mp h
  · cases m with
    | nil =>
        obtain ⟨c, q, rfl, hc⟩ := hp.first
        obtain ⟨rfl, -⟩ := List.cons.inj hr
        rw [hd] at hc
        cases hc
    | cons e m =>
        obtain ⟨rfl, rfl⟩ := List.cons.inj hr
        exact Or.inr ⟨m, by simp, rfl⟩
  · obtain ⟨k, rfl, hk⟩ | ⟨k, rfl, hr⟩ := List.append_eq_append_iff.mp hy
    · exact Or.inl ⟨k, by simp, hk⟩
    · cases k with
      | nil => exact Or.inl ⟨[], by simp, by simpa using hr.symm⟩
      | cons e k =>
          obtain ⟨rfl, -⟩ := List.cons.inj hr
          exact absurd (rtakeWhile_of_append hs) (hp.before hd)

end IsPhrase

/-- A word of a text that has a delimited part lies before it, in it or behind it. -/
theorem IsWord.locate {w p a b : List α} (hw : IsWord inWord w) (hdelim : Delimited inWord s r)
    (h : s ++ p ++ r = a ++ w ++ b) :
    (∃ m, s = a ++ w ++ m ∧ b = m ++ p ++ r) ∨ (s <+: a ∧ r <:+ b) ∨
      ∃ m, r = m ++ w ++ b ∧ a = s ++ p ++ m := by
  have joins {c : α} {w₁ w₂ : List α} (heq : w = w₁ ++ c :: w₂) : inWord c = true :=
    hw.2 c (by rw [heq]; exact List.mem_append_right _ List.mem_cons_self)
  rw [List.append_assoc, List.append_assoc] at h
  obtain ⟨l, rfl, hrest⟩ | ⟨l, rfl, hrest⟩ := List.append_eq_append_iff.mp h
  · obtain ⟨m, rfl, hr⟩ | ⟨m, rfl, hb⟩ := List.append_eq_append_iff.mp hrest
    · exact Or.inr (Or.inr ⟨m, by simpa using hr, by simp⟩)
    · obtain ⟨k, rfl, rfl⟩ | ⟨k, rfl, rfl⟩ := List.append_eq_append_iff.mp hb
      · exact Or.inr (Or.inl ⟨List.prefix_append _ _, List.suffix_append _ _⟩)
      · cases k with
        | nil => exact Or.inr (Or.inl ⟨List.prefix_append _ _, List.suffix_rfl⟩)
        | cons c k => exact absurd hdelim.2 (takeWhile_of_first _ (joins rfl))
  · obtain ⟨m, rfl, hb⟩ | ⟨m, rfl, hb⟩ := List.append_eq_append_iff.mp hrest
    · exact Or.inl ⟨m, by simp, by simpa using hb⟩
    · cases l using List.reverseRecOn with
      | append_singleton l c =>
          have hc : inWord c = true := joins (by rw [List.append_assoc, List.singleton_append])
          refine absurd hdelim.1 ?_
          rw [← List.append_assoc]
          exact rtakeWhile_of_last _ hc
      | nil =>
          obtain ⟨k, rfl, rfl⟩ | ⟨k, rfl, rfl⟩ := List.append_eq_append_iff.mp hb
          · cases k with
            | nil => exact Or.inr (Or.inl ⟨by simp, List.suffix_rfl⟩)
            | cons c k => exact absurd hdelim.2 (takeWhile_of_first _ (joins rfl))
          · exact Or.inr (Or.inl ⟨by simp, List.suffix_append _ _⟩)

/-- `cut` takes a delimited phrase out of a text and leaves a blank. -/
inductive Cut (inWord : α → Bool) (blank : α) (phrases : List (List α)) :
    List α → List α → Prop where
  | keep (s : List α) : Cut inWord blank phrases s s
  | cut {s p r r' : List α} : p ∈ phrases → Delimited inWord s r →
      Cut inWord blank phrases r r' → Cut inWord blank phrases (s ++ p ++ r) (s ++ blank :: r')

namespace Cut

variable {blank : α} {phrases : List (List α)} {text left s₁ r₁ w p a b : List α}

section Reading

variable (hblank : inWord blank = false) (hphrases : ∀ q ∈ phrases, IsPhrase inWord q)

include hblank hphrases

omit hphrases in
/-- An occurrence in what is left was there before, next to the same parts of words. -/
theorem occurs (hcut : Cut inWord blank phrases text left) (hp : IsPhrase inWord p) {x y : List α}
    (h : left = x ++ p ++ y) : ∃ x' y', text = x' ++ p ++ y' ∧
      x'.rtakeWhile inWord = x.rtakeWhile inWord ∧ y'.takeWhile inWord = y.takeWhile inWord := by
  induction hcut generalizing x y with
  | keep s => exact ⟨x, y, h, rfl, rfl⟩
  | @cut s q r r' hq hdelim _ ih =>
      obtain ⟨m, rfl, rfl⟩ | ⟨m, hr', rfl⟩ := hp.beside hblank hdelim.1 h
      · have hm : m ≠ [] := by
          rintro rfl
          rw [List.append_nil] at hdelim
          exact hp.not_last hdelim.1
        have hstop := stop_of_rtakeWhile (rtakeWhile_of_append hdelim.1) hm
        refine ⟨x, m ++ q ++ r, by simp, rfl, ?_⟩
        rw [List.append_assoc, takeWhile_append_of_exists hstop, takeWhile_append_cons hblank]
      · obtain ⟨x', y', rfl, hx, hy⟩ := ih hr'
        have hx' : x' ≠ [] := by
          rintro rfl
          rw [List.nil_append] at hdelim
          exact hp.not_first hdelim.2
        have hstop := stop_of_takeWhile
          (takeWhile_of_append (takeWhile_of_append hdelim.2)) hx'
        refine ⟨s ++ q ++ x', y', by simp, ?_, hy⟩
        rw [rtakeWhile_append_of_exists hstop, rtakeWhile_append_cons hblank, hx]

/-- A word that is not inside a delimited phrase of the text is a word of what is left. -/
theorem hasWord (hcut : Cut inWord blank phrases text left) (hw : IsWord inWord w)
    (htext : text = a ++ w ++ b) (hdelim : Delimited inWord a b)
    (houtside : ¬ ∃ q ∈ phrases, ∃ x y, text = x ++ q ++ y ∧ Delimited inWord x y ∧
      x <+: a ∧ y <:+ b) : HasWord inWord left w := by
  induction hcut generalizing a b with
  | keep s => exact ⟨a, b, htext, hdelim⟩
  | @cut s q r r' hq hcut _ ih =>
      obtain ⟨m, rfl, rfl⟩ | ⟨hs, hr⟩ | ⟨m, rfl, rfl⟩ := hw.locate hcut htext
      · refine ⟨a, m ++ blank :: r', by simp, hdelim.1, ?_⟩
        rw [takeWhile_append_cons hblank]
        exact takeWhile_of_append (takeWhile_of_append hdelim.2)
      · exact absurd ⟨q, hq, s, r, rfl, hcut, hs, hr⟩ houtside
      · obtain ⟨a', b', rfl, hdelim'⟩ := ih rfl hdelim.of_append_left (by
          rintro ⟨q', hq', x, y, hr, hxy, hx, hy⟩
          have hx' : x ≠ [] := by
            rintro rfl
            rw [hr, List.nil_append] at hcut
            exact (hphrases q' hq').not_first hcut.2
          have hstop : ∃ c ∈ x, inWord c = false := by
            rw [hr] at hcut
            exact stop_of_takeWhile (takeWhile_of_append (takeWhile_of_append hcut.2)) hx'
          refine houtside ⟨q', hq', s ++ q ++ x, y, ?_, ⟨?_, hxy.2⟩, ?_, hy⟩
          · rw [hr]
            simp
          · rw [rtakeWhile_append_of_exists hstop]
            exact hxy.1
          · exact (List.prefix_append_right_inj _).mpr hx)
        refine ⟨s ++ blank :: a', b', by simp, ?_, hdelim'.2⟩
        rw [rtakeWhile_append_cons hblank]
        exact hdelim'.1

omit hblank in
/-- What is left of the two sides of a phrase is what is left of the whole. -/
theorem join (hs : Cut inWord blank phrases s s₁) (hr : Cut inWord blank phrases r r₁)
    (hp : p ∈ phrases) (hdelim : Delimited inWord s r) :
    Cut inWord blank phrases (s ++ p ++ r) (s₁ ++ blank :: r₁) := by
  induction hs with
  | keep s => exact .cut hp hdelim hr
  | @cut s' q r' _ hq hdelim' _ ih =>
      have hr' : r' ≠ [] := by
        rintro rfl
        rw [List.append_nil] at hdelim
        exact (hphrases q hq).not_last hdelim.1
      have hstop := stop_of_rtakeWhile (rtakeWhile_of_append hdelim.1) hr'
      have hfollows : (r' ++ p ++ r).takeWhile inWord = [] := by
        rw [List.append_assoc, takeWhile_append_of_exists hstop]
        exact hdelim'.2
      have := Cut.cut hq ⟨hdelim'.1, hfollows⟩ (ih ⟨rtakeWhile_of_append hdelim.1, hdelim.2⟩)
      simpa using this

end Reading

section Removal

variable [DecidableEq α] (hblank : inWord blank = false) (hp : IsPhrase inWord p)

include hblank hp

/-- Every occurrence of a phrase is made of whole words. -/
def Whole (inWord : α → Bool) (p text : List α) : Prop :=
  ∀ x y, text = x ++ p ++ y → Delimited inWord x y

omit hblank hp [DecidableEq α] in
theorem Whole.front (h : Whole inWord p (text ++ v)) : Whole inWord p text := by
  intro x y heq
  obtain ⟨hx, hy⟩ := h x (y ++ v) (by rw [heq, List.append_assoc])
  exact ⟨hx, takeWhile_of_append hy⟩

omit hblank hp [DecidableEq α] in
theorem Whole.rest (h : Whole inWord p (u ++ text)) : Whole inWord p text := by
  intro x y heq
  obtain ⟨hx, hy⟩ := h (u ++ x) y (by rw [heq]; simp)
  exact ⟨rtakeWhile_of_append hx, hy⟩

/-- Where all occurrences are of whole words, none is left, and none has come about. -/
theorem not_infix_replaceAll (hwhole : Whole inWord p text) :
    ¬ p <:+: replaceAll p [blank] text := by
  induction hn : text.length using Nat.strong_induction_on generalizing text with
  | h n ih =>
      by_cases hinfix : p <:+: text
      · obtain ⟨s, r, rfl, hs, hreplace⟩ := exists_replaceAll [blank] hp.ne_nil hinfix
        have hlength : r.length < n := by
          have := List.length_pos_iff.mpr hp.ne_nil
          simp only [List.length_append] at hn
          omega
        have hr : Whole inWord p r := hwhole.rest
        rw [hreplace, List.append_assoc s [blank], List.singleton_append]
        rintro ⟨x, y, h⟩
        obtain ⟨m, rfl, -⟩ | ⟨m, hm, -⟩ := hp.beside hblank (hwhole s r rfl).1 h.symm
        · exact hs ⟨x, m, rfl⟩
        · exact ih _ hlength hr rfl ⟨m, y, hm.symm⟩
      · rwa [replaceAll_of_absent hinfix]

omit hblank in
theorem of_replaceAll (hmem : p ∈ phrases) (hwhole : Whole inWord p text) :
    Cut inWord blank phrases text (replaceAll p [blank] text) := by
  induction hn : text.length using Nat.strong_induction_on generalizing text with
  | h n ih =>
      by_cases hinfix : p <:+: text
      · obtain ⟨s, r, rfl, -, hreplace⟩ := exists_replaceAll [blank] hp.ne_nil hinfix
        have hlength : r.length < n := by
          have := List.length_pos_iff.mpr hp.ne_nil
          simp only [List.length_append] at hn
          omega
        have hr : Whole inWord p r := hwhole.rest
        rw [hreplace, List.append_assoc s [blank], List.singleton_append]
        exact .cut hmem (hwhole s r rfl) (ih _ hlength hr rfl)
      · rw [replaceAll_of_absent hinfix]
        exact .keep text

/-- Next to a blank that no word touches, each side is replaced on its own. -/
theorem replaceAll_beside (hs : s.rtakeWhile inWord = []) (r : List α) :
    replaceAll p [blank] (s ++ blank :: r) =
      replaceAll p [blank] s ++ blank :: replaceAll p [blank] r := by
  refine replaceAll_append_cons ?_ ?_
  · rintro l - ⟨u, rfl⟩ ⟨k, hk⟩
    obtain ⟨m, hl, -⟩ | ⟨m, -, hnil⟩ :=
      hp.beside (x := []) hblank (rtakeWhile_of_append hs) (by simpa using hk.symm)
    · exact ⟨m, by simpa using hl.symm⟩
    · simp at hnil
  · rintro ⟨k, hk⟩
    obtain ⟨c, q, rfl, hc⟩ := hp.first
    obtain ⟨rfl, -⟩ := List.cons.inj hk
    rw [hblank] at hc
    cases hc

/-- What was left of a text may go on losing phrases. -/
theorem replace (hphrases : ∀ q ∈ phrases, IsPhrase inWord q) (hmem : p ∈ phrases)
    (hcut : Cut inWord blank phrases text left) (hwhole : Whole inWord p left) :
    Cut inWord blank phrases text (replaceAll p [blank] left) := by
  induction hcut with
  | keep s => exact of_replaceAll hp hmem hwhole
  | @cut s q r r' hq hdelim _ ih =>
      have hs : Whole inWord p s := hwhole.front
      have hr' : Whole inWord p r' := Whole.rest (u := [blank]) hwhole.rest
      rw [replaceAll_beside hblank hp hdelim.1]
      exact join hphrases (of_replaceAll hp hmem hs) (ih hr') hq hdelim

end Removal

/-- The word around an occurrence of one of the phrases makes one of the phrases of it. -/
def Closed (inWord : α → Bool) (phrases : List (List α)) (text : List α) : Prop :=
  ∀ p ∈ phrases, ∀ x y, text = x ++ p ++ y →
    x.rtakeWhile inWord = [] ∧ p ++ y.takeWhile inWord ∈ phrases

variable [DecidableEq α] {order : List (List α)}

/-- The longest phrases only occur as whole words, and the others still close without them. -/
theorem Closed.next (hblank : inWord blank = false)
    (hphrases : ∀ q ∈ p :: order, IsPhrase inWord q) (hlongest : ∀ q ∈ order, q.length ≤ p.length)
    (h : Closed inWord (p :: order) text) : Whole inWord p text ∧
      Closed inWord order (replaceAll p [blank] text) := by
  have hp := hphrases p List.mem_cons_self
  have hwhole : Whole inWord p text := by
    intro x y heq
    obtain ⟨hx, hmem⟩ := h p List.mem_cons_self x y heq
    refine ⟨hx, ?_⟩
    have hlength : (p ++ y.takeWhile inWord).length ≤ p.length := by
      cases List.mem_cons.mp hmem with
      | inl heq => rw [heq]
      | inr hmem => exact hlongest _ hmem
    rw [List.length_append] at hlength
    exact List.eq_nil_of_length_eq_zero (by omega)
  refine ⟨hwhole, ?_⟩
  intro q hq x y heq
  have hcut : Cut inWord blank [p] text (replaceAll p [blank] text) :=
    of_replaceAll hp List.mem_cons_self hwhole
  obtain ⟨x', y', htext, hx, hy⟩ := hcut.occurs hblank (hphrases q (List.mem_cons_of_mem _ hq)) heq
  obtain ⟨hstart, hmem⟩ := h q (List.mem_cons_of_mem _ hq) x' y' htext
  refine ⟨hx ▸ hstart, ?_⟩
  rw [hy] at hmem
  cases List.mem_cons.mp hmem with
  | inr hmem => exact hmem
  | inl hleft =>
      refine absurd ?_ (not_infix_replaceAll hblank hp hwhole)
      refine ⟨x, y.dropWhile inWord, ?_⟩
      rw [heq, ← hleft]
      simp [List.append_assoc, List.takeWhile_append_dropWhile]

/-- Phrases that leave a text one after the other, the longer ones first, leave it as whole
words. -/
theorem of_closed (hblank : inWord blank = false) (hphrases : ∀ q ∈ phrases, IsPhrase inWord q)
    (horder : ∀ q ∈ order, q ∈ phrases) (hsorted : order.Pairwise fun p q => q.length ≤ p.length)
    (hcut : Cut inWord blank phrases text left) (hclosed : Closed inWord order left) :
    Cut inWord blank phrases text
      (order.foldl (fun text p => replaceAll p [blank] text) left) := by
  induction order generalizing left with
  | nil => exact hcut
  | cons p order ih =>
      obtain ⟨hlongest, hsorted⟩ := List.pairwise_cons.mp hsorted
      have hmem := horder p List.mem_cons_self
      obtain ⟨hwhole, hnext⟩ := hclosed.next hblank (fun q hq => hphrases q (horder q hq)) hlongest
      exact ih (fun q hq => horder q (List.mem_cons_of_mem _ hq)) hsorted
        (hcut.replace hblank (hphrases p hmem) hphrases hmem hwhole) hnext

end Cut

section Tidying

variable {isSpace isEnd : α → Bool} {blank : α} {text w : List α}

theorem collapse_cons_of_not_space (hc : isSpace c = false) (r : List α) :
    collapse isSpace blank (c :: r) = c :: collapse isSpace blank r := by
  cases r <;> simp [collapse, hc]

theorem collapse_append_of_not_space (hc : isSpace c = false) (s r : List α) :
    collapse isSpace blank (s ++ c :: r) =
      collapse isSpace blank s ++ collapse isSpace blank (c :: r) := by
  induction s with
  | nil => rfl
  | cons d s ih =>
      cases s with
      | nil => cases hd : isSpace d <;> simp [collapse, hc, hd]
      | cons e s =>
          rw [List.cons_append] at ih
          cases hd : isSpace d <;> cases he : isSpace e <;> simp [collapse, hd, he, ih]

theorem collapse_append_left (hw : ∀ c ∈ w, isSpace c = false) (r : List α) :
    collapse isSpace blank (w ++ r) = w ++ collapse isSpace blank r := by
  induction w with
  | nil => rfl
  | cons c w ih =>
      obtain ⟨hc, hw⟩ := List.forall_mem_cons.mp hw
      rw [List.cons_append, collapse_cons_of_not_space hc, ih hw, List.cons_append]

theorem exists_collapse_cons (blank : α) (hc : isSpace c = true) (r : List α) :
    ∃ v, collapse isSpace blank (c :: r) = blank :: v := by
  induction r generalizing c with
  | nil => exact ⟨[], by simp [collapse, hc]⟩
  | cons d r ih =>
      cases hd : isSpace d with
      | true =>
          obtain ⟨v, hv⟩ := ih hd
          exact ⟨v, by simp [collapse, hc, hd, hv]⟩
      | false => exact ⟨collapse isSpace blank (d :: r), by simp [collapse, hc, hd]⟩

theorem exists_collapse_concat (blank : α) (hc : isSpace c = true) (s : List α) :
    ∃ u, collapse isSpace blank (s ++ [c]) = u ++ [blank] := by
  induction s with
  | nil => exact ⟨[], by simp [collapse, hc]⟩
  | cons d s ih =>
      obtain ⟨u, hu⟩ := ih
      cases s with
      | nil => cases hd : isSpace d with
        | true => exact ⟨[], by simp [collapse, hc, hd]⟩
        | false => exact ⟨[d], by simp [collapse, hc, hd]⟩
      | cons e s =>
          rw [List.cons_append] at hu
          cases hd : isSpace d <;> cases he : isSpace e
          · exact ⟨d :: u, by simp [collapse, hd, hu]⟩
          · exact ⟨d :: u, by simp [collapse, hd, hu]⟩
          · exact ⟨blank :: u, by simp [collapse, hd, he, hu]⟩
          · exact ⟨u, by simp [collapse, hd, he, hu]⟩

/-- Collapsing white space leaves the words as they are. -/
theorem HasWord.collapse (hblank : inWord blank = false)
    (hspace : ∀ c, isSpace c = true → inWord c = false) (hw : IsWord inWord w)
    (h : HasWord inWord text w) : HasWord inWord (collapse isSpace blank text) w := by
  obtain ⟨x, y, rfl, hx, hy⟩ := h
  have hfree : ∀ c ∈ w, isSpace c = false := fun c hc => by
    cases hs : isSpace c with
    | false => rfl
    | true => exact absurd ((hspace c hs).symm.trans (hw.2 c hc)) Bool.false_ne_true
  refine ⟨Text.collapse isSpace blank x, Text.collapse isSpace blank y, ?_, ?_, ?_⟩
  · cases w with
    | nil => exact absurd rfl hw.1
    | cons c w =>
        rw [List.append_assoc, List.cons_append,
          collapse_append_of_not_space (hfree c List.mem_cons_self), ← List.cons_append,
          collapse_append_left hfree, List.append_assoc]
  · cases x using List.reverseRecOn with
    | nil => rfl
    | append_singleton x c =>
        have hc : inWord c = false := by
          cases hc : inWord c with
          | false => rfl
          | true => exact absurd hx (rtakeWhile_of_last x hc)
        cases hs : isSpace c with
        | true =>
            obtain ⟨u, hu⟩ := exists_collapse_concat blank hs x
            rw [hu, rtakeWhile_append_cons hblank]
            rfl
        | false =>
            rw [collapse_append_of_not_space hs, collapse_cons_of_not_space hs,
              rtakeWhile_append_cons hc]
            rfl
  · cases y with
    | nil => rfl
    | cons c y =>
        have hc : inWord c = false := by
          cases hc : inWord c with
          | false => rfl
          | true => exact absurd hy (takeWhile_of_first y hc)
        cases hs : isSpace c with
        | true =>
            obtain ⟨v, hv⟩ := exists_collapse_cons blank hs y
            simp [hv, hblank]
        | false => simp [collapse_cons_of_not_space hs, hc]

theorem dropWhile_append_cons (hc : isEnd c = false) (s r : List α) :
    (s ++ c :: r).dropWhile isEnd = s.dropWhile isEnd ++ c :: r := by
  induction s with
  | nil => simp [hc]
  | cons d s ih => cases hd : isEnd d <;> simp [hd, ih]

theorem stripEnds_word (hend : ∀ c, isEnd c = true → inWord c = false) (hw : IsWord inWord w)
    (x y : List α) : stripEnds isEnd (x ++ w ++ y) =
      x.dropWhile isEnd ++ w ++ (y.reverse.dropWhile isEnd).reverse := by
  have free {c : α} (hc : c ∈ w) : isEnd c = false := by
    cases he : isEnd c with
    | false => rfl
    | true => exact absurd ((hend c he).symm.trans (hw.2 c hc)) Bool.false_ne_true
  have hfront : (x ++ w ++ y).dropWhile isEnd = x.dropWhile isEnd ++ w ++ y := by
    cases w with
    | nil => exact absurd rfl hw.1
    | cons c w =>
        rw [List.append_assoc, List.cons_append, dropWhile_append_cons (free List.mem_cons_self)]
        simp
  rw [stripEnds, hfront]
  cases w using List.reverseRecOn with
  | nil => exact absurd rfl hw.1
  | append_singleton w c =>
      have hc : isEnd c = false := free (List.mem_append_right _ List.mem_cons_self)
      have hreverse : (x.dropWhile isEnd ++ (w ++ [c]) ++ y).reverse =
          y.reverse ++ c :: (w.reverse ++ (x.dropWhile isEnd).reverse) := by simp
      rw [hreverse, dropWhile_append_cons hc]
      simp

/-- Stripping characters that are outside words leaves the words as they are. -/
theorem HasWord.stripEnds (hend : ∀ c, isEnd c = true → inWord c = false)
    (hw : IsWord inWord w) (h : HasWord inWord text w) :
    HasWord inWord (stripEnds isEnd text) w := by
  obtain ⟨x, y, rfl, hx, hy⟩ := h
  refine ⟨_, _, stripEnds_word hend hw x y, ?_, ?_⟩
  · rw [← List.takeWhile_append_dropWhile (p := isEnd) (l := x)] at hx
    exact rtakeWhile_of_append hx
  · have hsplit : y = (y.reverse.dropWhile isEnd).reverse ++
        (y.reverse.takeWhile isEnd).reverse := by
      rw [← List.reverse_append, List.takeWhile_append_dropWhile, List.reverse_reverse]
    rw [hsplit] at hy
    exact takeWhile_of_append hy

end Tidying

end Words

end Text
