import DolphinVC.Middleware

/-!
# What the rate limiter lets pass

The times the limiter keeps for a key are those at which it let a request of that key pass
within the last window (`Limiter.Sound`). One arrival keeps this for its own key and leaves
the others alone, so it holds after every run in which time does not go back.

A rejected client is told to wait for the oldest of these times to leave the window, rounded
to whole seconds. Rounding down makes it wait too short. This is about a clock whose two
subtractions are exact in floats, as they are once it is older than the window
(`exactWait_of_clock`).
-/

namespace DolphinVC

open Binary64

section Keys

theorem append_inj_of_head {α : Type} {d : α} {a a' p p' : List α} (ha : d ∉ a) (ha' : d ∉ a')
    (hp : ∀ c ∈ p.head?, c = d) (hp' : ∀ c ∈ p'.head?, c = d) (h : a ++ p = a' ++ p') :
    a = a' ∧ p = p' := by
  -- the longer of the two beginnings would contain the head of what follows the other
  obtain ⟨c, rfl, rfl⟩ | ⟨c, rfl, rfl⟩ := List.append_eq_append_iff.mp h
  · cases c with
    | nil => simp
    | cons x c =>
        have hx : x = d := hp x (by simp)
        exact absurd (by simp [hx]) ha'
  · cases c with
    | nil => simp
    | cons x c =>
        have hx : x = d := hp' x (by simp)
        exact absurd (by simp [hx]) ha

theorem Request.host_no_slash (r : Request) : '/' ∉ (r.client.getD "unknown").toList := by
  cases hclient : r.client with
  | none => simp
  | some host => exact r.host_plain host hclient

/-- A key names one method and one path. -/
theorem Request.key_inj {r r' : Request} (h : r.key = r'.key) :
    r.method = r'.method ∧ r.path = r'.path := by
  have hkey := congrArg String.toList h
  simp only [Request.key, String.toList_append] at hkey
  obtain ⟨hfront, hpath⟩ := append_inj_of_head (d := '/')
    (by simp [r.host_no_slash, r.method_token.1]) (by simp [r'.host_no_slash, r'.method_token.1])
    (by simpa using r.path_rooted) (by simpa using r'.path_rooted) hkey
  -- read from its end, the front is the method up to the first colon
  have hback := congrArg List.reverse (List.append_cancel_right hfront)
  simp only [List.reverse_append] at hback
  obtain ⟨hmethod, -⟩ := append_inj_of_head (d := ':') (by simpa using r.method_token.2)
    (by simpa using r'.method_token.2) (by simp) (by simp) hback
  exact ⟨String.toList_inj.mp (List.reverse_injective hmethod), String.toList_inj.mp hpath⟩

theorem rule_eq_of_key {r r' : Request} (h : r.key = r'.key) : rule r = rule r' := by
  obtain ⟨hmethod, hpath⟩ := Request.key_inj h
  simp only [rule, hmethod, hpath]

end Keys

variable {settings : Settings} {l : Limiter} {a : Arrival} {now : Rat}

theorem requestLimit_eq_of_key {r r' : Request} (h : r.key = r'.key) :
    requestLimit settings r = requestLimit settings r' := by
  simp only [requestLimit, rule_eq_of_key h]

theorem requestWindow_eq_of_key {r r' : Request} (h : r.key = r'.key) :
    requestWindow r = requestWindow r' := by
  simp only [requestWindow, rule_eq_of_key h]

section Step

/-- What is left of the key's times when the request arrives. -/
def Limiter.bucket (l : Limiter) (a : Arrival) : List Rat :=
  SlidingLog.current (requestWindow a.request) a.now (l.events a.request.key)

theorem Limiter.step_full (h : requestLimit settings a.request ≤ (l.bucket a).length) :
    (l.reply settings a).isPassed = false ∧
      (l.reply settings a).retryAfter =
        some (retryAfter (requestWindow a.request) a.now ((l.bucket a).headD a.now)) ∧
      (l.step settings a).events = Function.update l.events a.request.key (l.bucket a) ∧
      (l.reply settings a).headers.remaining = 0 := by
  rw [Limiter.bucket] at h
  simp only [Limiter.reply, Limiter.step, dispatch, if_pos h]
  exact ⟨rfl, rfl, rfl, rfl⟩

theorem Limiter.step_room (h : (l.bucket a).length < requestLimit settings a.request) :
    (l.reply settings a).isPassed = true ∧ (l.reply settings a).retryAfter = none ∧
      (l.step settings a).events = Function.update l.events a.request.key (l.bucket a ++ [a.now]) ∧
      0 ≤ (l.reply settings a).headers.remaining := by
  have hroom := not_le.mpr h
  rw [Limiter.bucket] at hroom h
  simp only [Limiter.reply, Limiter.step, dispatch, if_neg hroom]
  refine ⟨rfl, rfl, rfl, ?_⟩
  simp only [RateReply.headers, List.length_append, List.length_singleton]
  omega

theorem Limiter.isPassed_iff : (l.reply settings a).isPassed = true ↔
    (l.bucket a).length < requestLimit settings a.request := by
  obtain hroom | hfull := lt_or_ge (l.bucket a).length (requestLimit settings a.request)
  · exact iff_of_true (Limiter.step_room hroom).1 hroom
  · rw [(Limiter.step_full hfull).1]
    exact iff_of_false Bool.false_ne_true hfull.not_gt

theorem Limiter.events_other {key : String} (hkey : key ≠ a.request.key) :
    (l.step settings a).events key = l.events key := by
  obtain hroom | hfull := lt_or_ge (l.bucket a).length (requestLimit settings a.request)
  · rw [(Limiter.step_room hroom).2.2.1, Function.update_of_ne hkey]
  · rw [(Limiter.step_full hfull).2.2.1, Function.update_of_ne hkey]

theorem admittedTimes_append {key : String} {served : List Served} {s : Served} :
    admittedTimes key (served ++ [s]) =
      admittedTimes key served ++
        if s.request.key = key ∧ s.reply.isPassed then [s.now] else [] := by
  rw [admittedTimes, List.filter_append, List.map_append]
  congr 1
  by_cases h : s.request.key = key ∧ s.reply.isPassed = true
  · simp [h]
  · simp only [if_neg h, List.filter_cons, decide_eq_true_eq, List.filter_nil, List.map_nil]

end Step

section Runs

/-- The times kept for a key are the ones admitted for it within the last window. -/
def Limiter.Sound (settings : Settings) (l : Limiter) (now : Rat) : Prop :=
  ∀ r : Request, SlidingLog.Logged (requestLimit settings r) (requestWindow r) now
    (admittedTimes r.key l.served) (l.events r.key)

theorem Limiter.Sound.advance {later : Rat} (h : l.Sound settings now) (hle : now ≤ later) :
    l.Sound settings later := fun r => (h r).advance hle

theorem Limiter.Sound.bucket (h : l.Sound settings a.now) :
    SlidingLog.Logged (requestLimit settings a.request) (requestWindow a.request) a.now
      (admittedTimes a.request.key l.served) (l.bucket a) := (h a.request).current

theorem Limiter.Sound.step (h : l.Sound settings a.now) :
    (l.step settings a).Sound settings a.now := by
  intro r
  have hserved : admittedTimes r.key (l.step settings a).served = admittedTimes r.key l.served ++
      if a.request.key = r.key ∧ (l.reply settings a).isPassed then [a.now] else [] :=
    admittedTimes_append
  by_cases hkey : a.request.key = r.key
  · rw [← requestLimit_eq_of_key hkey, ← requestWindow_eq_of_key hkey, hserved, ← hkey]
    obtain hroom | hfull := lt_or_ge (l.bucket a).length (requestLimit settings a.request)
    · obtain ⟨hpass, -, hevents, -⟩ := Limiter.step_room hroom
      rw [hevents, Function.update_self, if_pos ⟨rfl, hpass⟩]
      exact h.bucket.push hroom
    · obtain ⟨hpass, -, hevents, -⟩ := Limiter.step_full hfull
      rw [hevents, Function.update_self, if_neg (by simp [hpass]), List.append_nil]
      exact h.bucket
  · rw [hserved, if_neg (fun hboth => hkey hboth.1), List.append_nil,
      Limiter.events_other (Ne.symm hkey)]
    exact h r

theorem Limiter.run_append {before after : List Arrival} :
    Limiter.run settings (before ++ after) =
      after.foldl (Limiter.step settings) (Limiter.run settings before) := List.foldl_append

/-- At any time no arrival is later than, the run has kept the times right. -/
theorem Limiter.sound_run {arrivals : List Arrival}
    (ordered : arrivals.Pairwise fun a b => a.now ≤ b.now) (past : ∀ a ∈ arrivals, a.now ≤ now) :
    (Limiter.run settings arrivals).Sound settings now := by
  induction arrivals using List.reverseRecOn generalizing now with
  | nil => exact fun r => SlidingLog.Logged.nil
  | append_singleton arrivals a ih =>
      obtain ⟨hbefore, -, hlast⟩ := List.pairwise_append.mp ordered
      have hsound : (Limiter.run settings arrivals).Sound settings a.now :=
        ih hbefore fun b hb => hlast b hb a (List.mem_singleton_self a)
      rw [Limiter.run_append]
      exact hsound.step.advance (past a (by simp))

theorem exists_last (arrivals : List Arrival) : ∃ last, ∀ a ∈ arrivals, a.now ≤ last := by
  induction arrivals with
  | nil => exact ⟨0, by simp⟩
  | cons a arrivals ih =>
      obtain ⟨last, hlast⟩ := ih
      refine ⟨max a.now last, ?_⟩
      intro b hb
      cases hb with
      | head => exact le_max_left _ _
      | tail _ hb => exact (hlast b hb).trans (le_max_right _ _)

/-- Every interval of the window's length, open at one end, holds at most `limit` admissions
of a key. A rejection finds that many in the window that ends with it. -/
theorem limiter_enforces_window (settings : Settings) (arrivals : List Arrival)
    (ordered : arrivals.Pairwise fun a b => a.now ≤ b.now) (r : Request) :
    (∀ start, (admittedTimes r.key (Limiter.run settings arrivals).served).countP
        (fun t => start < t ∧ t ≤ start + requestWindow r) ≤ requestLimit settings r) ∧
      (∀ start, (admittedTimes r.key (Limiter.run settings arrivals).served).countP
        (fun t => start ≤ t ∧ t < start + requestWindow r) ≤ requestLimit settings r) ∧
      ∀ before a after, arrivals = before ++ a :: after → a.request.key = r.key →
        (((Limiter.run settings before).reply settings a).isPassed = false →
          (admittedTimes r.key (Limiter.run settings before).served).countP
            (fun t => a.now - requestWindow r < t ∧ t ≤ a.now) = requestLimit settings r) ∧
        0 ≤ ((Limiter.run settings before).reply settings a).headers.remaining := by
  obtain ⟨last, hlast⟩ := exists_last arrivals
  have hrun : (Limiter.run settings arrivals).Sound settings last :=
    Limiter.sound_run ordered hlast
  refine ⟨fun start => (hrun r).bounded _ (SlidingLog.within_Ioc start _),
    fun start => (hrun r).bounded _ (SlidingLog.within_Ico start _), ?_⟩
  rintro before a after rfl hkey
  obtain ⟨hbefore, -, hcross⟩ := List.pairwise_append.mp ordered
  have hsound : (Limiter.run settings before).Sound settings a.now :=
    Limiter.sound_run hbefore fun b hb => hcross b hb a (by simp)
  rcases lt_or_ge ((Limiter.run settings before).bucket a).length
    (requestLimit settings a.request) with hroom | hfull
  · obtain ⟨hpass, -, -, hremaining⟩ := Limiter.step_room hroom
    exact ⟨fun hrejected => absurd (hpass.symm.trans hrejected) (by simp), hremaining⟩
  · obtain ⟨-, -, -, hremaining⟩ := Limiter.step_full hfull
    refine ⟨fun _ => ?_, hremaining.ge⟩
    have hle := (hsound a.request).length_current_le
    have hcount := (hsound a.request).length_current
    rw [← hkey, ← requestLimit_eq_of_key hkey, ← requestWindow_eq_of_key hkey, ← hcount]
    exact le_antisymm hle hfull

/-- A form that anyone may submit, from one address. -/
def applyRequest : Request where
  client := some "10.0.0.1"
  method := "POST"
  path := "/public/apply"
  host_plain := by simp
  method_token := by simp
  path_rooted := by simp

/-- Five forms at once. There is room for a sixth an hour later. -/
def earlyApplies : List Arrival := List.replicate 5 ⟨applyRequest, 0⟩

theorem sixth_form_turned_away :
    ((Limiter.run { env := "prod" } earlyApplies).reply { env := "prod" }
        ⟨applyRequest, 1⟩).isPassed = false ∧
      (admittedTimes applyRequest.key (Limiter.run { env := "prod" } earlyApplies).served).countP
        (fun t => 1 - requestWindow applyRequest < t ∧ t ≤ 1) =
          requestLimit { env := "prod" } applyRequest := by
  have hrejected : ((Limiter.run { env := "prod" } earlyApplies).reply { env := "prod" }
      ⟨applyRequest, 1⟩).isPassed = false := by decide +kernel
  have hwindow := (limiter_enforces_window { env := "prod" } (earlyApplies ++ [⟨applyRequest, 1⟩])
    (by decide +kernel) applyRequest).2.2 earlyApplies ⟨applyRequest, 1⟩ [] rfl rfl
  exact ⟨hrejected, hwindow.1 hrejected⟩

end Runs

section Waiting

theorem requestLimit_pos (settings : Settings) (r : Request) : 0 < requestLimit settings r := by
  have hrule : 0 < (rule r).1 := by
    simp only [rule]
    split_ifs <;> simp
  rw [requestLimit]
  split_ifs
  · exact Nat.mul_pos hrule (by decide)
  · exact hrule

theorem requestWindow_pos (r : Request) : 0 < (rule r).2 := by
  simp only [rule]
  split_ifs <;> simp

variable {before between : List Arrival}

/-- How long the oldest admission of the last window still counts when the request arrives. -/
def untilRoom (settings : Settings) (before : List Arrival) (a : Arrival) : Rat :=
  let recent := (admittedTimes a.request.key (Limiter.run settings before).served).filter
    fun t => a.now - requestWindow a.request < t ∧ t ≤ a.now
  requestWindow a.request - (a.now - recent.headD a.now)

/-- Requests of other keys leave the key's times as they are. -/
theorem Limiter.events_run_other {key : String} (others : ∀ b ∈ between, b.request.key ≠ key) :
    (between.foldl (Limiter.step settings) l).events key = l.events key := by
  induction between generalizing l with
  | nil => rfl
  | cons b between ih =>
      rw [List.foldl_cons, ih fun c hc => others c (List.mem_cons_of_mem b hc),
        Limiter.events_other (others b List.mem_cons_self).symm]

/-- Both subtractions behind the wait of a rejected request have a double as their result. -/
structure ExactWait (settings : Settings) (before : List Arrival) (a : Arrival) : Prop where
  age : double (requestWindow a.request - untilRoom settings before a) =
    requestWindow a.request - untilRoom settings before a
  wait : double (untilRoom settings before a) = untilRoom settings before a

theorem cast_retryAfter {window now oldest wait : Rat} (hwait : wait = window - (now - oldest))
    (hage : double (window - wait) = window - wait) (hexact : double wait = wait) :
    (retryAfter window now oldest : Rat) = max 1 (Rounding.roundHalfEven wait : Rat) := by
  have hnow : now - oldest = window - wait := by linarith
  have hround : double (window - double (now - oldest)) = wait := by
    rw [hnow, hage, sub_sub_cancel, hexact]
  have hnonneg : 0 ≤ max 1 (Rounding.roundHalfEven wait) := zero_le_one.trans (le_max_left _ _)
  have hcast : ((retryAfter window now oldest : Nat) : Int) =
      max 1 (Rounding.roundHalfEven wait) := by
    rw [retryAfter, hround]
    exact Int.toNat_of_nonneg hnonneg
  have hrat : ((retryAfter window now oldest : Nat) : Rat) =
      ((max 1 (Rounding.roundHalfEven wait) : Int) : Rat) := by
    exact_mod_cast hcast
  rw [hrat, Int.cast_max, Int.cast_one]

/-- What a rejection knows: the times kept, their oldest one, and the wait computed from it. -/
theorem Limiter.rejected_spec {wait : Nat}
    (hsound : (Limiter.run settings before).Sound settings a.now)
    (rejected : ((Limiter.run settings before).reply settings a).retryAfter = some wait) :
    ∃ oldest rest, (Limiter.run settings (before ++ [a])).events a.request.key = oldest :: rest ∧
      (oldest :: rest).length = requestLimit settings a.request ∧
      untilRoom settings before a = requestWindow a.request - (a.now - oldest) ∧
      (oldest ∈ admittedTimes a.request.key (Limiter.run settings before).served ∧
        a.now - requestWindow a.request < oldest ∧ oldest ≤ a.now) ∧
      wait = retryAfter (requestWindow a.request) a.now oldest := by
  rcases lt_or_ge ((Limiter.run settings before).bucket a).length
    (requestLimit settings a.request) with hroom | hfull
  · rw [(Limiter.step_room hroom).2.1] at rejected
    cases rejected
  · obtain ⟨-, hwait, hevents, -⟩ := Limiter.step_full hfull
    have hle := (hsound a.request).length_current_le
    have hrecent := (hsound a.request).current_eq
    rw [hwait, Option.some.injEq] at rejected
    cases hbucket : (Limiter.run settings before).bucket a with
    | nil =>
        rw [hbucket] at hfull
        exact absurd (requestLimit_pos settings a.request) (not_lt.mpr hfull)
    | cons oldest rest =>
        rw [hbucket] at hfull hevents rejected
        have hlog : SlidingLog.current (requestWindow a.request) a.now
            ((Limiter.run settings before).events a.request.key) = oldest :: rest := hbucket
        rw [hlog] at hle hrecent
        have holdest : oldest ∈ oldest :: rest := List.mem_cons_self
        rw [hrecent, List.mem_filter] at holdest
        refine ⟨oldest, rest, ?_, le_antisymm hle hfull, ?_, ⟨holdest.1, ?_⟩, rejected.symm⟩
        · rw [Limiter.run_append, List.foldl_cons, List.foldl_nil, hevents, Function.update_self]
        · simp only [untilRoom, ← hrecent, List.headD_cons]
        · simpa using holdest.2

/-- Every arrival is answered, in order. -/
theorem Limiter.served_run (arrivals : List Arrival) :
    (Limiter.run settings arrivals).served.map Served.toArrival = arrivals := by
  induction arrivals using List.reverseRecOn with
  | nil => rfl
  | append_singleton arrivals a ih =>
      rw [Limiter.run_append, List.foldl_cons, List.foldl_nil, Limiter.step, List.map_append, ih]
      rfl

theorem Limiter.mem_admittedTimes {key : String} {t : Rat}
    (h : t ∈ admittedTimes key (Limiter.run settings before).served) :
    ∃ b ∈ before, b.now = t := by
  obtain ⟨s, hs, rfl⟩ := List.mem_map.mp h
  have harrival := List.mem_map_of_mem (f := Served.toArrival) (List.mem_filter.mp hs).1
  rw [Limiter.served_run] at harrival
  exact ⟨s.toArrival, harrival, rfl⟩

/-- A clock that shows doubles, and no less than the window, makes both subtractions exact. -/
theorem exactWait_of_clock {wait : Nat}
    (ordered : (before ++ [a]).Pairwise fun a b => a.now ≤ b.now)
    (rejected : ((Limiter.run settings before).reply settings a).retryAfter = some wait)
    (clock : ∀ b ∈ before ++ [a], double b.now = b.now ∧ requestWindow a.request ≤ b.now ∧
      b.now < 2 ^ 53) : ExactWait settings before a := by
  obtain ⟨hbefore, -, hcross⟩ := List.pairwise_append.mp ordered
  have hpast : ∀ b ∈ before, b.now ≤ a.now := fun b hb => hcross b hb a (by simp)
  obtain ⟨oldest, -, -, -, hroom, ⟨hadmitted, hlow, hhigh⟩, -⟩ :=
    Limiter.rejected_spec (Limiter.sound_run hbefore hpast) rejected
  obtain ⟨b, hb, rfl⟩ := Limiter.mem_admittedTimes hadmitted
  obtain ⟨hold, hwindow, hbound⟩ := clock b (by simp [hb])
  obtain ⟨hnow, -, -⟩ := clock a (by simp)
  obtain ⟨hage, hleft⟩ := double_age hold hnow (requestWindow_pos a.request) hwindow hhigh
    (by rw [← requestWindow]; linarith) hbound
  have hback : requestWindow a.request - (requestWindow a.request - (a.now - b.now)) =
      a.now - b.now := sub_sub_cancel _ _
  constructor
  · rw [hroom, hback]
    exact hage
  · rw [hroom]
    exact hleft

/-- A rejected client that waits as told is let pass exactly if the wait was not rounded down. -/
theorem retry_after_suffices_iff (settings : Settings) (before : List Arrival) (a : Arrival)
    (wait : Nat) (ordered : (before ++ [a]).Pairwise fun a b => a.now ≤ b.now)
    (floats : ExactWait settings before a)
    (rejected : ((Limiter.run settings before).reply settings a).retryAfter = some wait) :
    (∀ (between : List Arrival) (next : Arrival),
        (before ++ [a] ++ between ++ [next]).Pairwise (fun a b => a.now ≤ b.now) →
        (∀ b ∈ between, b.request.key ≠ a.request.key) → next.request.key = a.request.key →
        a.now + wait ≤ next.now →
        ((Limiter.run settings (before ++ [a] ++ between)).reply settings next).isPassed = true) ↔
      untilRoom settings before a ≤ 1 ∨ Int.fract (untilRoom settings before a) = 0 ∨
        1 / 2 < Int.fract (untilRoom settings before a) ∨
        Int.fract (untilRoom settings before a) = 1 / 2 ∧
          ⌊untilRoom settings before a⌋ % 2 = 1 := by
  obtain ⟨hbefore, -, hcross⟩ := List.pairwise_append.mp ordered
  have hpast : ∀ b ∈ before, b.now ≤ a.now := fun b hb => hcross b hb a (by simp)
  obtain ⟨oldest, rest, hevents, hlength, hroom, -, hwait⟩ :=
    Limiter.rejected_spec (Limiter.sound_run hbefore hpast) rejected
  -- until the key's next request its times stay as the rejection left them
  have hnext : ∀ (between : List Arrival) (next : Arrival),
      (∀ b ∈ between, b.request.key ≠ a.request.key) → next.request.key = a.request.key →
      (((Limiter.run settings (before ++ [a] ++ between)).reply settings next).isPassed = true ↔
        oldest ≤ next.now - requestWindow a.request) := by
    intro between next others hkey
    rw [Limiter.isPassed_iff, Limiter.bucket, requestLimit_eq_of_key hkey,
      requestWindow_eq_of_key hkey, hkey, Limiter.run_append, Limiter.events_run_other others,
      hevents, ← hlength]
    exact SlidingLog.length_current_lt_iff
  rw [← Rounding.le_roundHalfEven_self_iff, ← le_max_iff,
    ← cast_retryAfter hroom floats.age floats.wait, hroom, ← hwait]
  constructor
  · intro h
    have hpass := h [] ⟨a.request, a.now + wait⟩ (by
      simp only [List.append_nil]
      refine List.pairwise_append.mpr ⟨ordered, by simp, ?_⟩
      intro b hb c hc
      rw [List.mem_singleton.mp hc]
      have hb' : b.now ≤ a.now := by
        cases List.mem_append.mp hb with
        | inl hb => exact hpast b hb
        | inr hb => exact (congrArg Arrival.now (List.mem_singleton.mp hb)).le
      exact hb'.trans (le_add_of_nonneg_right (Nat.cast_nonneg wait))) (by simp) rfl le_rfl
    have hold : oldest ≤ a.now + wait - requestWindow a.request :=
      (hnext [] ⟨a.request, a.now + wait⟩ (by simp) rfl).mp hpass
    linarith
  · intro h between next _ others hkey hlate
    refine (hnext between next others hkey).mpr ?_
    linarith

def tenSecondsEarly : Arrival := ⟨applyRequest, 3590⟩

theorem retry_after_suffices_iff_apply :
    ((Limiter.run { env := "prod" } (earlyApplies ++ [tenSecondsEarly] ++ [])).reply
      { env := "prod" } ⟨applyRequest, 3600⟩).isPassed = true :=
  (retry_after_suffices_iff { env := "prod" } earlyApplies tenSecondsEarly 10
    (by decide +kernel) ⟨by decide +kernel, by decide +kernel⟩ (by decide +kernel)).mpr
      (Or.inr (Or.inl (by decide +kernel))) [] ⟨applyRequest, 3600⟩ (by decide +kernel)
        (by simp) rfl (by decide +kernel)

def overTenSecondsEarly : Arrival := ⟨applyRequest, 3600 - 83 / 8⟩

/-- The sixth form is told to wait ten seconds, and is turned away again after them. -/
theorem retry_after_too_short :
    ((Limiter.run { env := "prod" } earlyApplies).reply { env := "prod" }
        overTenSecondsEarly).retryAfter = some 10 ∧
      ((Limiter.run { env := "prod" } (earlyApplies ++ [overTenSecondsEarly])).reply
        { env := "prod" }
        ⟨applyRequest, overTenSecondsEarly.now + 10⟩).isPassed = false := by
  decide +kernel

end Waiting

end DolphinVC
