import DolphinVC.Services.Llm

/-!
# Falling through to the next provider

A provider is accepted when its body has a text where the answer belongs and the text passes
the schema. The gateway hands on the first accepted answer as long as every body it reads
before is refused with an exception that it catches; `Refused` says which shapes of a body
those are, and `Kept` which usage of an accepted body can be recorded.
-/

namespace DolphinVC

namespace Answer

variable {v c : JsonValue}

/-- The value at `choices[0].message.content`. -/
def ContentAt (v c : JsonValue) : Prop :=
  ∃ body choice more message, v = .dict body ∧
    JsonValue.lookup "choices" body = some (.list (.dict choice :: more)) ∧
    JsonValue.lookup "message" choice = some (.dict message) ∧
    JsonValue.lookup "content" message = some c

/-- The entry is an object, and so is its message if there is one. -/
def ChoiceObject (choice : JsonValue) : Prop :=
  ∃ fields, choice = .dict fields ∧
    ∀ m, JsonValue.lookup "message" fields = some m → ∃ message, m = .dict message

/-- An object, or a list that starts with an object. -/
def ChoicesReadable : JsonValue → Prop
  | .dict _ => True
  | .list (choice :: _) => ChoiceObject choice
  | _ => False

/-- The body is an object, and whatever it has on the way to the content can be read. -/
def Readable (v : JsonValue) : Prop :=
  ∃ body, v = .dict body ∧ ∀ c, JsonValue.lookup "choices" body = some c → ChoicesReadable c

/-- The number that a count stands for, if `int` takes it. -/
def counted (intOfText : String → Option Int) : JsonValue → Option Int
  | .null => some 0
  | .bool b => some (if b then 1 else 0)
  | .int n => some n
  | .float (.finite q) => some (q.num.tdiv q.den)
  | .float _ => none
  | .string s => if s = "" then some 0 else intOfText s
  | .list items => if items.isEmpty then some 0 else none
  | .dict fields => if fields.isEmpty then some 0 else none

/-- No number, and a text without one: what `int` refuses with a `ValueError`. -/
def NoNumber (intOfText : String → Option Int) : JsonValue → Prop
  | .float .nan => True
  | .string s => s ≠ "" ∧ intOfText s = none
  | _ => False

def valueAt (key : String) (fields : List (String × JsonValue)) : JsonValue :=
  (JsonValue.lookup key fields).getD .null

end Answer

open Answer

section Provider

variable {Model : Type} (gateway : Gateway) (request : Completion Model) (provider : Provider)

/-- What is made of a text: without a schema nothing. -/
def Parses (s : String) (parsed : Option Model) : Prop :=
  (request.schema = none ∧ parsed = none) ∨
    ∃ validate value model, request.schema = some validate ∧ gateway.loads s = .value value ∧
      validate value = some model ∧ parsed = some model

/-- The provider's body has a text at its place, and the text passes. -/
def Accepts (result : LLMResult Model) : Prop :=
  ∃ v s parsed, openaiCompatible gateway provider = .ok v ∧ ContentAt v (.string s) ∧
    Parses gateway request s parsed ∧
    result = { content := .string s, parsed, provider := provider.name, model := provider.model }

/-- The object's two counts fit. -/
def CountsFit (usage : List (String × JsonValue)) : Prop :=
  ∀ key ∈ ["prompt_tokens", "completion_tokens"],
    ∃ n, counted gateway.intOfText (valueAt key usage) = some n ∧ gateway.fits n = true

/-- The first of the object's counts that is none is no number. -/
def CountsHaveNoNumber (usage : List (String × JsonValue)) : Prop :=
  NoNumber gateway.intOfText (valueAt "prompt_tokens" usage) ∨
    (counted gateway.intOfText (valueAt "prompt_tokens" usage)).isSome ∧
      NoNumber gateway.intOfText (valueAt "completion_tokens" usage)

/-- Nothing to count, or an object whose counts fit. -/
def UsageCounts (usage : JsonValue) : Prop :=
  usage.truthy = true → ∃ fields, usage = .dict fields ∧ CountsFit gateway fields

def UsageHasNoNumber (usage : JsonValue) : Prop :=
  ∃ fields, usage = .dict fields ∧ CountsHaveNoNumber gateway fields

/-- An accepted body that can be recorded. -/
def Kept : Prop :=
  gateway.hasSession = true → ∀ body, openaiCompatible gateway provider = .ok (.dict body) →
    UsageCounts gateway (valueAt "usage" body)

/-- A body that is refused as a bad answer: it can be read up to its content, and that is a
text, on which `json.loads` raises nothing but a `ValueError`. Without a schema nothing looks at
the content; there another value is refused only by its usage. -/
def Refused : Prop :=
  ∀ v, openaiCompatible gateway provider = .ok v → Readable v ∧ ∀ c, ContentAt v c →
    (∃ s, c = .string s ∧ ∀ e, gateway.loads s ≠ .failed e) ∨
      request.schema = none ∧ gateway.hasSession = true ∧
        ∃ body, v = .dict body ∧ UsageHasNoNumber gateway (valueAt "usage" body)

/-- Every provider up to the first accepted one answers in a shape the gateway can take. -/
def Passable : List Provider → Prop
  | [] => True
  | provider :: rest =>
      (∃ result, Accepts gateway request provider result) ∧ Kept gateway provider ∨
        (¬∃ result, Accepts gateway request provider result) ∧ Refused gateway request provider ∧
          Passable rest

/-- The first accepted result, or an `AppError` when there is none; with a session one row for
each provider that was tried. -/
structure FallsThrough (providers : List Provider) (out : WithCalls (LLMResult Model)) : Prop where
  first : ∀ before provider after result, providers = before ++ provider :: after →
    (∀ q ∈ before, ¬∃ r, Accepts gateway request q r) → Accepts gateway request provider result →
    out.2 = .ok result ∧
      (gateway.hasSession = true →
        out.1.map LLMCall.provider = (before ++ [provider]).map Provider.name)
  none : (∀ q ∈ providers, ¬∃ r, Accepts gateway request q r) →
    (∃ e details, out.2 = .error (.app e details)) ∧
      (gateway.hasSession = true → out.1.map LLMCall.provider = providers.map Provider.name)

end Provider

/-- The exception leaves `complete`, and it is no `AppError`. -/
def LlmExc.Escapes (e : LlmExc) : Prop :=
  e.isCaught = false ∧ ∀ error details, e ≠ .app error details

section Content

variable {v c c' : JsonValue}

theorem escapes_typeError : LlmExc.typeError.Escapes := ⟨rfl, nofun⟩

theorem escapes_indexError : LlmExc.indexError.Escapes := ⟨rfl, nofun⟩

theorem contentAt_unique (h : ContentAt v c) (h' : ContentAt v c') : c = c' := by
  obtain ⟨body, choice, more, message, rfl, hchoices, hmessage, hcontent⟩ := h
  obtain ⟨body', choice', more', message', hbody, hchoices', hmessage', hcontent'⟩ := h'
  obtain rfl := JsonValue.dict.inj hbody
  rw [hchoices] at hchoices'
  cases hchoices'
  rw [hmessage] at hmessage'
  cases hmessage'
  rw [hcontent] at hcontent'
  exact Option.some.inj hcontent'

theorem readable_of_contentAt (h : ContentAt v c) : Readable v := by
  obtain ⟨body, choice, more, message, rfl, hchoices, hmessage, -⟩ := h
  refine ⟨body, rfl, fun c' hc' => ?_⟩
  obtain rfl := Option.some.inj (hchoices.symm.trans hc')
  exact ⟨choice, rfl, fun m hm => ⟨message, Option.some.inj (hm.symm.trans hmessage)⟩⟩

/-- The walk below an entry of `choices`. -/
def choiceContent (choice : JsonValue) : Except LlmExc JsonValue := do
  let message ← choice.item "message"
  message.item "content"

theorem choiceContent_cases (choice : JsonValue) :
    (∃ fields message c, choice = .dict fields ∧
        JsonValue.lookup "message" fields = some (.dict message) ∧
        JsonValue.lookup "content" message = some c ∧ choiceContent choice = .ok c) ∨
      (ChoiceObject choice ∧ choiceContent choice = .error .keyError) ∨
      ¬ChoiceObject choice ∧ choiceContent choice = .error .typeError := by
  cases choice with
  | dict fields =>
      cases hm : JsonValue.lookup "message" fields with
      | none =>
          refine .inr (.inl ⟨⟨fields, rfl, fun m h => ?_⟩,
            by simp [choiceContent, JsonValue.item, hm, bind, Except.bind]⟩)
          rw [hm] at h
          cases h
      | some m =>
          cases m with
          | dict message =>
              cases hc : JsonValue.lookup "content" message with
              | none =>
                  refine .inr (.inl ⟨⟨fields, rfl, fun m h => ?_⟩, by
                    simp [choiceContent, JsonValue.item, hm, hc, bind, Except.bind]⟩)
                  rw [hm] at h
                  exact ⟨message, (Option.some.inj h).symm⟩
              | some c =>
                  exact .inl ⟨fields, message, c, rfl, hm, hc, by
                    simp [choiceContent, JsonValue.item, hm, hc, bind, Except.bind]⟩
          | _ =>
              refine .inr (.inr
                ⟨?_, by simp [choiceContent, JsonValue.item, hm, bind, Except.bind]⟩)
              rintro ⟨fields', heq, hobject⟩
              obtain rfl := JsonValue.dict.inj heq
              obtain ⟨message, h⟩ := hobject _ hm
              cases h
  | _ =>
      refine .inr (.inr ⟨?_, rfl⟩)
      rintro ⟨fields, h, -⟩
      cases h

theorem messageContent_dict {body : List (String × JsonValue)} {choices choice : JsonValue}
    (hchoices : JsonValue.lookup "choices" body = some choices)
    (hfirst : choices.first = .ok choice) :
    messageContent (.dict body) = choiceContent choice := by
  simp [messageContent, choiceContent, JsonValue.item, hchoices, hfirst, bind, Except.bind]

/-- The walk ends at the content, with the exception for a missing key, or it meets a value of
the wrong kind. -/
theorem messageContent_cases (v : JsonValue) :
    (Readable v ∧ ∃ c, ContentAt v c ∧ messageContent v = .ok c) ∨
      (Readable v ∧ (∀ c, ¬ContentAt v c) ∧ messageContent v = .error .keyError) ∨
      ¬Readable v ∧ (∀ c, ¬ContentAt v c) ∧ ∃ e, messageContent v = .error e ∧ e.Escapes := by
  have wrong (hnone : ∀ body, v ≠ .dict body) : ¬Readable v ∧ (∀ c, ¬ContentAt v c) :=
    ⟨fun ⟨body, h, _⟩ => hnone body h, fun c ⟨body, _, _, _, h, _⟩ => hnone body h⟩
  cases v with
  | dict body =>
      cases hchoices : JsonValue.lookup "choices" body with
      | none =>
          refine .inr (.inl ⟨⟨body, rfl, fun c h => ?_⟩, ?_, ?_⟩)
          · rw [hchoices] at h
            cases h
          · rintro c ⟨body', choice, more, message, hbody, h, -⟩
            obtain rfl := JsonValue.dict.inj hbody
            rw [hchoices] at h
            cases h
          · simp [messageContent, JsonValue.item, hchoices, bind, Except.bind]
      | some choices =>
          have readable : Readable (.dict body) ↔ ChoicesReadable choices := by
            constructor
            · rintro ⟨body', hbody, h⟩
              obtain rfl := JsonValue.dict.inj hbody
              exact h choices hchoices
            · refine fun h => ⟨body, rfl, fun c hc => ?_⟩
              rw [hchoices] at hc
              exact Option.some.inj hc ▸ h
          have content {c : JsonValue} (h : ContentAt (.dict body) c) :
              ∃ choice more message, choices = .list (.dict choice :: more) ∧
                JsonValue.lookup "message" choice = some (.dict message) ∧
                JsonValue.lookup "content" message = some c := by
            obtain ⟨body', choice, more, message, hbody, h, hm, hc⟩ := h
            obtain rfl := JsonValue.dict.inj hbody
            rw [hchoices] at h
            exact ⟨choice, more, message, Option.some.inj h, hm, hc⟩
          rw [readable]
          cases choices with
          | dict fields =>
              refine .inr (.inl ⟨trivial, ?_, ?_⟩)
              · intro c h
                obtain ⟨_, _, _, h, -⟩ := content h
                cases h
              · simp [messageContent, JsonValue.item, JsonValue.first, hchoices, bind, Except.bind]
          | list items =>
              cases items with
              | nil =>
                  refine .inr (.inr ⟨id, ?_, .indexError, ?_, escapes_indexError⟩)
                  · intro c h
                    obtain ⟨_, _, _, h, -⟩ := content h
                    cases h
                  · simp [messageContent, JsonValue.item, JsonValue.first, hchoices, bind,
                      Except.bind]
              | cons choice more =>
                  rw [messageContent_dict hchoices rfl]
                  have inner {c : JsonValue} (h : ContentAt (.dict body) c) :
                      choiceContent choice = .ok c := by
                    obtain ⟨fields, more', message, heq, hm, hc⟩ := content h
                    obtain ⟨rfl, -⟩ := List.cons_eq_cons.mp (JsonValue.list.inj heq)
                    simp [choiceContent, JsonValue.item, hm, hc, bind, Except.bind]
                  obtain ⟨fields, message, c, rfl, hm, hc, hok⟩ | ⟨hobject, herror⟩ |
                    ⟨hobject, herror⟩ := choiceContent_cases choice
                  · refine .inl ⟨⟨fields, rfl, fun m h => ?_⟩, c,
                      ⟨body, fields, more, message, rfl, hchoices, hm, hc⟩, hok⟩
                    rw [hm] at h
                    exact ⟨message, (Option.some.inj h).symm⟩
                  · refine .inr (.inl ⟨hobject, fun c h => ?_, herror⟩)
                    rw [inner h] at herror
                    cases herror
                  · refine .inr (.inr ⟨hobject, fun c h => ?_, _, herror, escapes_typeError⟩)
                    rw [inner h] at herror
                    cases herror
          | string s =>
              have hnone (c : JsonValue) : ¬ContentAt (.dict body) c := by
                intro h
                obtain ⟨_, _, _, h, -⟩ := content h
                cases h
              refine .inr (.inr ⟨id, hnone, ?_⟩)
              cases hs : s.toList with
              | nil =>
                  exact ⟨.indexError, by
                    simp [messageContent, JsonValue.item, JsonValue.first, hchoices, hs, bind,
                      Except.bind], escapes_indexError⟩
              | cons x xs =>
                  exact ⟨.typeError, by
                    simp [messageContent, JsonValue.item, JsonValue.first, hchoices, hs, bind,
                      Except.bind], escapes_typeError⟩
          | _ =>
              refine .inr (.inr ⟨id, ?_, .typeError, ?_, escapes_typeError⟩)
              · intro c h
                obtain ⟨_, _, _, h, -⟩ := content h
                cases h
              · simp [messageContent, JsonValue.item, JsonValue.first, hchoices, bind, Except.bind]
  | _ =>
      obtain ⟨hread, hcontent⟩ := wrong nofun
      exact .inr (.inr ⟨hread, hcontent, .typeError, rfl, escapes_typeError⟩)

end Content

section Usage

variable {Model : Type} {gateway : Gateway} {request : Completion Model} {provider : Provider}

/-- What `int(x or 0)` makes of a count. -/
theorem toInt_cases (intOfText : String → Option Int) (x : JsonValue) :
    (∃ n, counted intOfText x = some n ∧ (x.orElse (.int 0)).toInt intOfText = .ok n) ∨
      (counted intOfText x = none ∧ NoNumber intOfText x ∧
        (x.orElse (.int 0)).toInt intOfText = .error (.valueError "ValueError")) ∨
      counted intOfText x = none ∧ ¬NoNumber intOfText x ∧
        ∃ e, (x.orElse (.int 0)).toInt intOfText = .error e ∧ e.Escapes := by
  cases x with
  | null => exact .inl ⟨0, rfl, rfl⟩
  | bool b => cases b <;> exact .inl ⟨_, rfl, rfl⟩
  | int n =>
      refine .inl ⟨n, rfl, ?_⟩
      by_cases hn : n = 0
      · simp [JsonValue.orElse, JsonValue.truthy, JsonValue.toInt, hn]
      · simp [JsonValue.orElse, JsonValue.truthy, JsonValue.toInt, hn]
  | float f =>
      cases f with
      | finite q =>
          refine .inl ⟨_, rfl, ?_⟩
          by_cases hq : q = 0
          · simp [JsonValue.orElse, JsonValue.truthy, JsonValue.toInt, hq]
          · simp [JsonValue.orElse, JsonValue.truthy, JsonValue.toInt, hq]
      | infinite => exact .inr (.inr ⟨rfl, id, .overflowError, rfl, rfl, nofun⟩)
      | nan => exact .inr (.inl ⟨rfl, trivial, rfl⟩)
  | string s =>
      by_cases hs : s = ""
      · exact .inl ⟨0, by simp [counted, hs], by
          simp [JsonValue.orElse, JsonValue.truthy, JsonValue.toInt, hs]⟩
      · cases hn : intOfText s with
        | some n =>
            exact .inl ⟨n, by simp [counted, hs, hn], by
              simp [JsonValue.orElse, JsonValue.truthy, JsonValue.toInt, hs, hn]⟩
        | none =>
            exact .inr (.inl ⟨by simp [counted, hs, hn], ⟨hs, hn⟩, by
              simp [JsonValue.orElse, JsonValue.truthy, JsonValue.toInt, hs, hn]⟩)
  | list items =>
      cases items with
      | nil => exact .inl ⟨0, rfl, rfl⟩
      | cons x xs => exact .inr (.inr ⟨rfl, id, .typeError, rfl, escapes_typeError⟩)
  | dict fields =>
      cases fields with
      | nil => exact .inl ⟨0, rfl, rfl⟩
      | cons x xs => exact .inr (.inr ⟨rfl, id, .typeError, rfl, escapes_typeError⟩)

theorem not_counted_of_noNumber {intOfText : String → Option Int} {x : JsonValue}
    (h : NoNumber intOfText x) : counted intOfText x = none := by
  cases x with
  | float f =>
      cases f with
      | nan => rfl
      | _ => exact h.elim
  | string s => simp [counted, h.1, h.2]
  | _ => exact h.elim

theorem not_countsFit_of_noNumber {usage : List (String × JsonValue)}
    (h : CountsHaveNoNumber gateway usage) : ¬CountsFit gateway usage := by
  intro hfit
  obtain h | ⟨-, h⟩ := h
  · obtain ⟨n, hn, -⟩ := hfit "prompt_tokens" (by simp)
    rw [not_counted_of_noNumber h] at hn
    cases hn
  · obtain ⟨n, hn, -⟩ := hfit "completion_tokens" (by simp)
    rw [not_counted_of_noNumber h] at hn
    cases hn

theorem tokenCount_dict (usage : List (String × JsonValue)) (key : String) :
    tokenCount gateway (.dict usage) key =
      ((valueAt key usage).orElse (.int 0)).toInt gateway.intOfText := rfl

theorem recordCall_dict {status : String} {usage : List (String × JsonValue)}
    {error : Option String} (hsession : gateway.hasSession = true) :
    (CountsFit gateway usage ∧ ∃ rows,
        recordCall gateway request provider status (.dict usage) error = (rows, .ok ()) ∧
          rows.map LLMCall.provider = [provider.name]) ∨
      (CountsHaveNoNumber gateway usage ∧
        recordCall gateway request provider status (.dict usage) error =
          ([], .error (.valueError "ValueError"))) ∨
      ¬CountsFit gateway usage ∧ ¬CountsHaveNoNumber gateway usage ∧ ∃ rows e,
        recordCall gateway request provider status (.dict usage) error = (rows, .error e) ∧
          e.Escapes := by
  have same : (JsonValue.dict usage).orElse (.dict []) = .dict usage := by
    cases usage <;> rfl
  unfold recordCall
  rw [if_neg (not_not_intro hsession), same]
  simp only [tokenCount_dict]
  obtain ⟨n, hn, hprompt⟩ | ⟨hn, hno, hprompt⟩ | ⟨hn, hno, e, hprompt, hescapes⟩ :=
    toInt_cases gateway.intOfText (valueAt "prompt_tokens" usage)
  · obtain ⟨m, hm, hcompletion⟩ | ⟨hm, hno, hcompletion⟩ | ⟨hm, hno, e, hcompletion, hescapes⟩ :=
      toInt_cases gateway.intOfText (valueAt "completion_tokens" usage)
    · have hnone : ¬CountsHaveNoNumber gateway usage := by
        rintro (h | ⟨-, h⟩)
        · cases (not_counted_of_noNumber h).symm.trans hn
        · cases (not_counted_of_noNumber h).symm.trans hm
      rw [hprompt, hcompletion]
      dsimp only
      by_cases hfits : gateway.fits n ∧ gateway.fits m
      · rw [if_pos hfits]
        refine .inl ⟨?_, _, rfl, rfl⟩
        simp only [CountsFit, List.forall_mem_cons]
        exact ⟨⟨n, hn, hfits.1⟩, ⟨m, hm, hfits.2⟩, nofun⟩
      · rw [if_neg hfits]
        refine .inr (.inr ⟨fun hfit => hfits ?_, hnone, _, .other "DBAPIError", rfl, rfl, nofun⟩)
        obtain ⟨n', hn', hfn⟩ := hfit "prompt_tokens" (by simp)
        obtain ⟨m', hm', hfm⟩ := hfit "completion_tokens" (by simp)
        rw [hn] at hn'
        rw [hm] at hm'
        cases hn'
        cases hm'
        exact ⟨hfn, hfm⟩
    · rw [hprompt, hcompletion]
      exact .inr (.inl ⟨.inr ⟨by rw [hn]; rfl, hno⟩, rfl⟩)
    · rw [hprompt, hcompletion]
      refine .inr (.inr ⟨fun hfit => ?_, ?_, _, _, rfl, hescapes⟩)
      · obtain ⟨m, hm', -⟩ := hfit "completion_tokens" (by simp)
        cases hm.symm.trans hm'
      · rintro (h | ⟨-, h⟩)
        · cases (not_counted_of_noNumber h).symm.trans hn
        · exact hno h
  · rw [hprompt]
    exact .inr (.inl ⟨.inl hno, rfl⟩)
  · rw [hprompt]
    refine .inr (.inr ⟨fun hfit => ?_, ?_, _, _, rfl, hescapes⟩)
    · obtain ⟨n, hn', -⟩ := hfit "prompt_tokens" (by simp)
      cases hn.symm.trans hn'
    · rintro (h | ⟨h, -⟩)
      · exact hno h
      · rw [hn] at h
        cases h

/-- Without a usage the counts are 0, and the row is stored. -/
theorem recordCall_falsy (hfits : gateway.fits 0 = true) {status : String} {usage : JsonValue}
    {error : Option String} (hfalsy : usage.truthy = false) :
    ∃ rows, recordCall gateway request provider status usage error = (rows, .ok ()) ∧
      (gateway.hasSession = true → rows.map LLMCall.provider = [provider.name]) := by
  unfold recordCall
  by_cases hsession : gateway.hasSession = true
  · have same : usage.orElse (.dict []) = .dict [] := by
      unfold JsonValue.orElse
      rw [hfalsy, if_neg (by decide)]
    have zero (key : String) : tokenCount gateway (.dict []) key = .ok 0 := rfl
    rw [if_neg (not_not_intro hsession), same]
    simp only [zero]
    exact ⟨_, by rw [if_pos ⟨hfits, hfits⟩], fun _ => rfl⟩
  · rw [if_pos hsession]
    exact ⟨[], rfl, fun h => absurd h hsession⟩

/-- The three ends of `_record` on a session. -/
theorem recordCall_cases (hfits : gateway.fits 0 = true) (hsession : gateway.hasSession = true)
    {status : String} (usage : JsonValue) {error : Option String} :
    (UsageCounts gateway usage ∧ ∃ rows,
        recordCall gateway request provider status usage error = (rows, .ok ()) ∧
          rows.map LLMCall.provider = [provider.name]) ∨
      (¬UsageCounts gateway usage ∧ UsageHasNoNumber gateway usage ∧
        recordCall gateway request provider status usage error =
          ([], .error (.valueError "ValueError"))) ∨
      ¬UsageCounts gateway usage ∧ ¬UsageHasNoNumber gateway usage ∧ ∃ rows e,
        recordCall gateway request provider status usage error = (rows, .error e) ∧ e.Escapes := by
  cases htruthy : usage.truthy with
  | false =>
      obtain ⟨rows, hrows, hprovider⟩ := recordCall_falsy hfits htruthy
      refine .inl ⟨fun h => ?_, rows, hrows, hprovider hsession⟩
      rw [htruthy] at h
      cases h
  | true =>
      cases usage with
      | dict fields =>
          have counts : UsageCounts gateway (.dict fields) ↔ CountsFit gateway fields :=
            ⟨fun h => by
              obtain ⟨fields', heq, h⟩ := h htruthy
              exact JsonValue.dict.inj heq ▸ h, fun h _ => ⟨fields, rfl, h⟩⟩
          have noNumber : UsageHasNoNumber gateway (.dict fields) ↔
              CountsHaveNoNumber gateway fields :=
            ⟨fun ⟨fields', heq, h⟩ => JsonValue.dict.inj heq ▸ h, fun h => ⟨fields, rfl, h⟩⟩
          rw [counts, noNumber]
          obtain h | ⟨h, hrecord⟩ | h :=
            @recordCall_dict _ gateway request provider status fields error hsession
          · exact .inl h
          · exact .inr (.inl ⟨not_countsFit_of_noNumber h, h, hrecord⟩)
          · exact .inr (.inr h)
      | _ =>
          refine .inr (.inr ⟨fun h => ?_, fun ⟨_, h, _⟩ => (nomatch h), [], .attributeError, ?_,
            rfl, nofun⟩)
          · obtain ⟨fields, h, -⟩ := h htruthy
            cases h
          · unfold recordCall JsonValue.orElse
            rw [if_neg (not_not_intro hsession), if_pos htruthy]
            rfl

end Usage

section Try

variable {Model : Type} {gateway : Gateway} {request : Completion Model} {provider : Provider}

theorem accepts_unique {r r' : LLMResult Model} (h : Accepts gateway request provider r)
    (h' : Accepts gateway request provider r') : r = r' := by
  obtain ⟨v, s, parsed, hv, hcontent, hparses, rfl⟩ := h
  obtain ⟨v', s', parsed', hv', hcontent', hparses', rfl⟩ := h'
  obtain rfl := Except.ok.inj (hv.symm.trans hv')
  obtain rfl := JsonValue.string.inj (contentAt_unique hcontent hcontent')
  have same : parsed = parsed' := by
    obtain ⟨hnone, rfl⟩ | ⟨validate, value, model, hsome, hvalue, hmodel, rfl⟩ := hparses
    · obtain ⟨-, rfl⟩ | ⟨validate, value, model, hsome, -⟩ := hparses'
      · rfl
      · cases hnone.symm.trans hsome
    · obtain ⟨hnone, -⟩ | ⟨validate', value', model', hsome', hvalue', hmodel', rfl⟩ := hparses'
      · cases hnone.symm.trans hsome
      · cases hsome.symm.trans hsome'
        cases hvalue.symm.trans hvalue'
        cases hmodel.symm.trans hmodel'
        rfl
  rw [same]

/-- What becomes of a content. -/
theorem parseContent_cases (gateway : Gateway) (request : Completion Model) (content : JsonValue) :
    (∃ s parsed, content = .string s ∧ Parses gateway request s parsed ∧
        parseContent gateway request content = .ok parsed) ∨
      ((∀ s, content ≠ .string s) ∧ request.schema = none ∧
        parseContent gateway request content = .ok none) ∨
      (∃ s e, content = .string s ∧ (∀ parsed, ¬Parses gateway request s parsed) ∧
        (∀ c, gateway.loads s ≠ .failed c) ∧
          parseContent gateway request content = .error e ∧ e.isCaught = true) ∨
      (∀ s, content = .string s → (∀ parsed, ¬Parses gateway request s parsed) ∧
          ∃ c, gateway.loads s = .failed c) ∧ request.schema ≠ none ∧
        ∃ e, parseContent gateway request content = .error e ∧ e.Escapes := by
  cases hschema : request.schema with
  | none =>
      have hparse : parseContent gateway request content = .ok none := by
        unfold parseContent
        rw [hschema]
      cases content with
      | string s => exact .inl ⟨s, none, rfl, .inl ⟨hschema, rfl⟩, hparse⟩
      | _ => exact .inr (.inl ⟨nofun, rfl, hparse⟩)
  | some validate =>
      have hnot {s : String} {parsed : Option Model}
          (hvalue : ∀ value, gateway.loads s = .value value → validate value = none) :
          ¬Parses gateway request s parsed := by
        rintro (⟨hnone, -⟩ | ⟨validate', value, model, hsome, hloads, hmodel, -⟩)
        · cases hschema.symm.trans hnone
        · cases hschema.symm.trans hsome
          cases (hvalue value hloads).symm.trans hmodel
      cases content with
      | string s =>
          cases hloads : gateway.loads s with
          | value value =>
              cases hmodel : validate value with
              | some model =>
                  refine .inl ⟨s, some model, rfl, .inr ⟨validate, value, model, hschema, hloads,
                    hmodel, rfl⟩, ?_⟩
                  simp [parseContent, hschema, hloads, hmodel, Loaded.result, bind, Except.bind]
              | none =>
                  refine .inr (.inr (.inl ⟨s, .validationError, rfl, fun parsed =>
                    hnot fun value' h => ?_, ?_, ?_, rfl⟩))
                  · cases hloads.symm.trans h
                    exact hmodel
                  · rw [hloads]
                    nofun
                  · simp [parseContent, hschema, hloads, hmodel, Loaded.result, bind, Except.bind]
          | invalid c =>
              refine .inr (.inr (.inl
                ⟨s, .valueError c, rfl, fun parsed => hnot fun value h => ?_, ?_, ?_, rfl⟩))
              · cases hloads.symm.trans h
              · rw [hloads]
                nofun
              · simp [parseContent, hschema, hloads, Loaded.result, bind, Except.bind]
          | failed c =>
              refine .inr (.inr (.inr ⟨fun s' hs => ?_, nofun, .other c, ?_, rfl, nofun⟩))
              · obtain rfl := JsonValue.string.inj hs
                refine ⟨fun parsed => hnot fun value h => ?_, c, hloads⟩
                cases hloads.symm.trans h
              · simp [parseContent, hschema, hloads, Loaded.result, bind, Except.bind]
      | _ =>
          refine .inr (.inr (.inr ⟨nofun, nofun, .typeError, ?_, escapes_typeError⟩))
          unfold parseContent
          rw [hschema]

theorem openaiCompatible_caught {e : LlmExc} (h : openaiCompatible gateway provider = .error e) :
    e.isCaught = true := by
  have answer {post : Post} (h : post.answer = .error e) : e.isCaught = true := by
    cases post with
    | body value => cases h
    | _ =>
        cases h
        rfl
  unfold openaiCompatible at h
  dsimp only at h
  split at h
  · split at h
    · exact answer h
    · exact answer h
  · exact answer h

theorem not_usageHasNoNumber {usage : JsonValue} (h : UsageCounts gateway usage) :
    ¬UsageHasNoNumber gateway usage := by
  rintro ⟨fields, rfl, hno⟩
  cases fields with
  | nil =>
      obtain hno | ⟨-, hno⟩ := hno
      · exact hno
      · exact hno
  | cons x xs =>
      obtain ⟨fields', heq, hfit⟩ := h rfl
      obtain rfl := JsonValue.dict.inj heq
      exact not_countsFit_of_noNumber hno hfit

/-- How the `try` body for one provider can end. -/
inductive Tried (gateway : Gateway) (request : Completion Model) (provider : Provider) :
    WithCalls (LLMResult Model) → Prop where
  | kept {rows : List LLMCall} {result : LLMResult Model}
      (accepts : Accepts gateway request provider result) (kept : Kept gateway provider)
      (logged : gateway.hasSession = true → rows.map LLMCall.provider = [provider.name]) :
      Tried gateway request provider (rows, .ok result)
  | lost {rows : List LLMCall} {e : LlmExc} {result : LLMResult Model}
      (accepts : Accepts gateway request provider result) (notKept : ¬Kept gateway provider)
      (session : gateway.hasSession = true) (ended : e.isCaught = true ∨ e.Escapes) :
      Tried gateway request provider (rows, .error e)
  | refused {e : LlmExc} (none : ¬∃ result, Accepts gateway request provider result)
      (refused : Refused gateway request provider) (caught : e.isCaught = true) :
      Tried gateway request provider ([], .error e)
  | escaped {rows : List LLMCall} {e : LlmExc}
      (none : ¬∃ result, Accepts gateway request provider result)
      (notRefused : ¬Refused gateway request provider) (escapes : e.Escapes) :
      Tried gateway request provider (rows, .error e)
  | untyped {rows : List LLMCall} {result : LLMResult Model}
      (none : ¬∃ result, Accepts gateway request provider result)
      (notRefused : ¬Refused gateway request provider)
      (noText : ∀ s, result.content ≠ .string s)
      (logged : gateway.hasSession = true → rows.map LLMCall.provider = [provider.name]) :
      Tried gateway request provider (rows, .ok result)

theorem tryProvider_error {e : LlmExc} (h : readAnswer gateway request provider = .error e) :
    tryProvider gateway request provider = ([], .error e) := by
  unfold tryProvider
  rw [h]

theorem tryProvider_ok {usage content : JsonValue} {parsed : Option Model} {rows : List LLMCall}
    {recorded : Except LlmExc Unit}
    (h : readAnswer gateway request provider = .ok (usage, content, parsed))
    (hrecord : recordCall gateway request provider "ok" usage none = (rows, recorded)) :
    tryProvider gateway request provider = (rows, recorded.map fun _ =>
      { content, parsed, provider := provider.name, model := provider.model }) := by
  unfold tryProvider
  rw [h]
  dsimp only
  rw [hrecord]

theorem recordCall_detached (hsession : ¬gateway.hasSession = true) {status : String}
    {usage : JsonValue} {error : Option String} :
    recordCall gateway request provider status usage error = ([], .ok ()) := by
  unfold recordCall
  rw [if_pos hsession]

/-- A body that was read and parsed. -/
theorem tried_of_parsed (hfits : gateway.fits 0 = true) {body : List (String × JsonValue)}
    {content : JsonValue} {parsed : Option Model}
    (hopen : openaiCompatible gateway provider = .ok (.dict body))
    (hcontent : ContentAt (.dict body) content)
    (hread : readAnswer gateway request provider = .ok (valueAt "usage" body, content, parsed))
    (hcase : (∃ s, content = .string s ∧ Parses gateway request s parsed) ∨
      (∀ s, content ≠ .string s) ∧ request.schema = none) :
    Tried gateway request provider (tryProvider gateway request provider) := by
  obtain ⟨s, rfl, hparses⟩ | ⟨hnoText, hschema⟩ := hcase
  · have accepts : Accepts gateway request provider
        { content := .string s, parsed, provider := provider.name, model := provider.model } :=
      ⟨_, s, parsed, hopen, hcontent, hparses, rfl⟩
    have hkept : gateway.hasSession = true →
        (Kept gateway provider ↔ UsageCounts gateway (valueAt "usage" body)) := by
      refine fun hsession => ⟨fun h => h hsession body hopen, fun h _ body' hopen' => ?_⟩
      obtain rfl := JsonValue.dict.inj (Except.ok.inj (hopen.symm.trans hopen'))
      exact h
    by_cases hsession : gateway.hasSession = true
    · obtain ⟨hcounts, rows, hrows, hlogged⟩ | ⟨hcounts, -, hrows⟩ |
          ⟨hcounts, -, rows, e, hrows, he⟩ :=
        @recordCall_cases _ gateway request provider hfits hsession "ok" (valueAt "usage" body) none
      · rw [tryProvider_ok hread hrows]
        exact .kept accepts ((hkept hsession).mpr hcounts) fun _ => hlogged
      · rw [tryProvider_ok hread hrows]
        exact .lost accepts (fun h => hcounts ((hkept hsession).mp h)) hsession (.inl rfl)
      · rw [tryProvider_ok hread hrows]
        exact .lost accepts (fun h => hcounts ((hkept hsession).mp h)) hsession (.inr he)
    · rw [tryProvider_ok hread (recordCall_detached hsession)]
      exact .kept accepts (fun h => absurd h hsession) fun h => absurd h hsession
  · have none : ¬∃ result, Accepts gateway request provider result := by
      rintro ⟨result, v, s, parsed, hopen', hcontent', -⟩
      obtain rfl := Except.ok.inj (hopen.symm.trans hopen')
      exact hnoText s (contentAt_unique hcontent hcontent')
    have notRefused (h : gateway.hasSession = true →
        ¬UsageHasNoNumber gateway (valueAt "usage" body)) : ¬Refused gateway request provider := by
      intro hrefused
      obtain ⟨s, hs, -⟩ | ⟨-, hsession, body', hbody, hno⟩ :=
        (hrefused _ hopen).2 content hcontent
      · exact hnoText s hs
      · exact h hsession (JsonValue.dict.inj hbody ▸ hno)
    by_cases hsession : gateway.hasSession = true
    · obtain ⟨hcounts, rows, hrows, hlogged⟩ | ⟨-, hno, hrows⟩ | ⟨-, hno, rows, e, hrows, he⟩ :=
        @recordCall_cases _ gateway request provider hfits hsession "ok"
          (valueAt "usage" body) Option.none
      · rw [tryProvider_ok hread hrows]
        exact .untyped none (notRefused fun _ => not_usageHasNoNumber hcounts) hnoText
          fun _ => hlogged
      · rw [tryProvider_ok hread hrows]
        refine .refused none (fun v hv => ?_) rfl
        obtain rfl := Except.ok.inj (hopen.symm.trans hv)
        exact ⟨readable_of_contentAt hcontent, fun _ _ => .inr ⟨hschema, hsession, body, rfl, hno⟩⟩
      · rw [tryProvider_ok hread hrows]
        exact .escaped none (notRefused fun _ => hno) he
    · rw [tryProvider_ok hread (recordCall_detached hsession)]
      exact .untyped none (notRefused fun h => absurd h hsession) hnoText fun h => absurd h hsession

theorem tryProvider_tried (hfits : gateway.fits 0 = true) (request : Completion Model)
    (provider : Provider) :
    Tried gateway request provider (tryProvider gateway request provider) := by
  cases hopen : openaiCompatible gateway provider with
  | error e =>
      have hread : readAnswer gateway request provider = .error e := by
        simp [readAnswer, hopen, bind, Except.bind]
      rw [tryProvider_error hread]
      refine .refused ?_ (fun v hv => ?_) (openaiCompatible_caught hopen)
      · rintro ⟨result, v, s, parsed, hv, -⟩
        cases hopen.symm.trans hv
      · cases hopen.symm.trans hv
  | ok v =>
      have rejected
          (h : ∀ s, ContentAt v (.string s) → ∀ parsed, ¬Parses gateway request s parsed) :
          ¬∃ result, Accepts gateway request provider result := by
        rintro ⟨result, v', s, parsed, hv, hcontent, hparses, -⟩
        obtain rfl := Except.ok.inj (hopen.symm.trans hv)
        exact h s hcontent parsed hparses
      obtain ⟨hreadable, c, hcontent, hmessage⟩ | ⟨hreadable, hnone, hmessage⟩ |
        ⟨hreadable, hnone, e, hmessage, he⟩ := messageContent_cases v
      · obtain ⟨body, hbody, -⟩ := hreadable
        subst hbody
        obtain ⟨s, parsed, hs, hparses, hparse⟩ | ⟨hnoText, hschema, hparse⟩ |
          ⟨s, e, rfl, hparses, hloads, hparse, he⟩ | ⟨hfailed, hschema, e, hparse, he⟩ :=
          parseContent_cases gateway request c
        · refine tried_of_parsed hfits hopen hcontent ?_ (.inl ⟨s, hs, hparses⟩)
          simp [readAnswer, hopen, hmessage, hparse, JsonValue.get, valueAt, bind,
            Except.bind, pure, Except.pure]
        · have hread :
              readAnswer gateway request provider = .ok (valueAt "usage" body, c, none) := by
            simp [readAnswer, hopen, hmessage, hparse, JsonValue.get, valueAt, bind,
              Except.bind, pure, Except.pure]
          exact tried_of_parsed hfits hopen hcontent hread (.inr ⟨hnoText, hschema⟩)
        · have hread : readAnswer gateway request provider = .error e := by
            simp [readAnswer, hopen, hmessage, hparse, bind, Except.bind]
          rw [tryProvider_error hread]
          refine .refused (rejected fun s' hs' parsed => ?_) (fun v hv => ?_) he
          · obtain rfl := JsonValue.string.inj (contentAt_unique hcontent hs')
            exact hparses parsed
          · obtain rfl := Except.ok.inj (hopen.symm.trans hv)
            refine ⟨readable_of_contentAt hcontent, fun c hc => .inl ⟨s, ?_, hloads⟩⟩
            exact contentAt_unique hc hcontent
        · have hread : readAnswer gateway request provider = .error e := by
            simp [readAnswer, hopen, hmessage, hparse, bind, Except.bind]
          rw [tryProvider_error hread]
          refine .escaped (rejected fun s hs => (hfailed s (contentAt_unique hcontent hs)).1)
            (fun hrefused => ?_) he
          obtain ⟨s, rfl, hloads⟩ | ⟨hnone, -⟩ := (hrefused _ hopen).2 c hcontent
          · obtain ⟨-, className, hclass⟩ := hfailed s rfl
            exact hloads className hclass
          · exact hschema hnone
      · have hread : readAnswer gateway request provider = .error .keyError := by
          simp [readAnswer, hopen, hmessage, bind, Except.bind]
        rw [tryProvider_error hread]
        refine .refused (rejected fun s hs => absurd hs (hnone _)) (fun v' hv => ?_) rfl
        obtain rfl := Except.ok.inj (hopen.symm.trans hv)
        exact ⟨hreadable, fun c hc => absurd hc (hnone c)⟩
      · have hread : readAnswer gateway request provider = .error e := by
          simp [readAnswer, hopen, hmessage, bind, Except.bind]
        rw [tryProvider_error hread]
        exact .escaped (rejected fun s hs => absurd hs (hnone _))
          (fun hrefused => hreadable (hrefused _ hopen).1) he

end Try

section Loop

variable {Model : Type} {gateway : Gateway} {request : Completion Model} {provider : Provider}
variable {providers rest : List Provider} {errors : List String}

theorem completeFrom_ok {rows : List LLMCall} {result : LLMResult Model}
    (h : tryProvider gateway request provider = (rows, .ok result)) :
    completeFrom gateway request (provider :: rest) errors = (rows, .ok result) := by
  rw [completeFrom, h]

theorem completeFrom_escaped {rows : List LLMCall} {e : LlmExc}
    (h : tryProvider gateway request provider = (rows, .error e)) (he : e.Escapes) :
    completeFrom gateway request (provider :: rest) errors = (rows, .error e) := by
  rw [completeFrom, h]
  simp only [he.1]
  rfl

/-- A caught exception adds one row and goes on. -/
theorem completeFrom_caught (hfits : gateway.fits 0 = true) {rows : List LLMCall} {e : LlmExc}
    (h : tryProvider gateway request provider = (rows, .error e)) (he : e.isCaught = true) :
    ∃ failed errors', (gateway.hasSession = true → failed.map LLMCall.provider = [provider.name]) ∧
      completeFrom gateway request (provider :: rest) errors =
        (rows ++ failed ++ (completeFrom gateway request rest errors').1,
          (completeFrom gateway request rest errors').2) := by
  obtain ⟨failed, hfailed, hlogged⟩ := @recordCall_falsy _ gateway request provider hfits "failed"
    .null (some e.className) rfl
  refine ⟨failed, errors ++ [provider.name ++ ": " ++ e.className], hlogged, ?_⟩
  rw [completeFrom, h]
  simp only [he, if_true, hfailed]

/-- On a session a result comes with a row. -/
theorem rows_of_ok (hfits : gateway.fits 0 = true) (hsession : gateway.hasSession = true)
    {rows : List LLMCall} {result : LLMResult Model}
    (h : completeFrom gateway request providers errors = (rows, .ok result)) : rows ≠ [] := by
  have nonempty {rows : List LLMCall} {name : String} (h : rows.map LLMCall.provider = [name]) :
      rows ≠ [] := by
    rintro rfl
    cases h
  have caught {provider : Provider} {rest : List Provider} {rows' : List LLMCall} {e : LlmExc}
      (htry : tryProvider gateway request provider = (rows', .error e)) (he : e.isCaught = true)
      (h : completeFrom gateway request (provider :: rest) errors = (rows, .ok result)) :
      rows ≠ [] := by
    obtain ⟨failed, errors', hlogged, heq⟩ := @completeFrom_caught _ gateway request provider rest
      errors hfits rows' e htry he
    rw [heq] at h
    rw [← (Prod.mk.inj h).1]
    simp [nonempty (hlogged hsession)]
  cases providers with
  | nil => cases h
  | cons provider rest =>
      have tried := tryProvider_tried hfits request provider
      generalize htry : tryProvider gateway request provider = out at tried
      cases tried with
      | kept accepts kept logged =>
          rw [completeFrom_ok htry] at h
          cases h
          exact nonempty (logged hsession)
      | untyped none notRefused noText logged =>
          rw [completeFrom_ok htry] at h
          cases h
          exact nonempty (logged hsession)
      | refused none refused he => exact caught htry he h
      | escaped none notRefused he =>
          rw [completeFrom_escaped htry he] at h
          cases h
      | lost accepts notKept session ended =>
          obtain he | he := ended
          · exact caught htry he h
          · rw [completeFrom_escaped htry he] at h
            cases h

/-- Either nothing is accepted or there is a first that is. -/
theorem exists_first (gateway : Gateway) (request : Completion Model) (providers : List Provider) :
    (∀ q ∈ providers, ¬∃ r, Accepts gateway request q r) ∨
      ∃ before provider after result, providers = before ++ provider :: after ∧
        (∀ q ∈ before, ¬∃ r, Accepts gateway request q r) ∧
          Accepts gateway request provider result := by
  induction providers with
  | nil => exact .inl nofun
  | cons q rest ih =>
      by_cases hq : ∃ r, Accepts gateway request q r
      · obtain ⟨r, hr⟩ := hq
        exact .inr ⟨[], q, rest, r, rfl, nofun, hr⟩
      · obtain hnone | ⟨before, provider, after, result, rfl, hbefore, haccepts⟩ := ih
        · exact .inl (List.forall_mem_cons.mpr ⟨hq, hnone⟩)
        · exact .inr ⟨q :: before, provider, after, result, rfl,
            List.forall_mem_cons.mpr ⟨hq, hbefore⟩, haccepts⟩

/-- What falls through ends in a text or in an `AppError`. -/
theorem FallsThrough.ends {out : WithCalls (LLMResult Model)}
    (h : FallsThrough gateway request providers out) :
    (∃ result s, out.2 = .ok result ∧ result.content = .string s) ∨
      ∃ e details, out.2 = .error (.app e details) := by
  obtain hnone | ⟨before, provider, after, result, heq, hbefore, haccepts⟩ :=
    exists_first gateway request providers
  · exact .inr (h.none hnone).1
  · have hout := (h.first before provider after result heq hbefore haccepts).1
    obtain ⟨v, s, parsed, -, -, -, rfl⟩ := haccepts
    exact .inl ⟨_, s, hout, rfl⟩

/-- A provider that is not accepted adds its row in front. -/
theorem fallsThrough_cons (hnone : ¬∃ r, Accepts gateway request provider r) {failed : List LLMCall}
    {out : WithCalls (LLMResult Model)}
    (hlogged : gateway.hasSession = true → failed.map LLMCall.provider = [provider.name]) :
    FallsThrough gateway request (provider :: rest) (failed ++ out.1, out.2) ↔
      FallsThrough gateway request rest out := by
  have rows {names : List String} (hsession : gateway.hasSession = true) :
      (failed ++ out.1).map LLMCall.provider = provider.name :: names ↔
        out.1.map LLMCall.provider = names := by
    rw [List.map_append, hlogged hsession, List.singleton_append, List.cons_eq_cons]
    exact and_iff_right rfl
  constructor
  · intro h
    refine ⟨fun before q after result heq hbefore haccepts => ?_, fun hrest => ?_⟩
    · obtain ⟨hout, hrows⟩ := h.first (provider :: before) q after result (by rw [heq]; rfl)
        (List.forall_mem_cons.mpr ⟨hnone, hbefore⟩) haccepts
      exact ⟨hout, fun hsession => (rows hsession).mp (hrows hsession)⟩
    · obtain ⟨hout, hrows⟩ := h.none (List.forall_mem_cons.mpr ⟨hnone, hrest⟩)
      exact ⟨hout, fun hsession => (rows hsession).mp (hrows hsession)⟩
  · intro h
    refine ⟨fun before q after result heq hbefore haccepts => ?_, fun hall => ?_⟩
    · cases before with
      | nil =>
          obtain ⟨rfl, -⟩ := List.cons_eq_cons.mp heq
          exact absurd ⟨result, haccepts⟩ hnone
      | cons p before =>
          obtain ⟨rfl, rfl⟩ := List.cons_eq_cons.mp heq
          obtain ⟨hout, hrows⟩ := h.first before q after result rfl
            (fun q hq => hbefore q (List.mem_cons_of_mem _ hq)) haccepts
          exact ⟨hout, fun hsession => (rows hsession).mpr (hrows hsession)⟩
    · obtain ⟨hout, hrows⟩ := h.none fun q hq => hall q (List.mem_cons_of_mem _ hq)
      exact ⟨hout, fun hsession => (rows hsession).mpr (hrows hsession)⟩

/-- Induction over the providers, by how the first one is tried. -/
theorem completeFrom_fallsThrough_iff (hfits : gateway.fits 0 = true) :
    FallsThrough gateway request providers (completeFrom gateway request providers errors) ↔
      Passable gateway request providers := by
  induction providers generalizing errors with
  | nil =>
      refine iff_of_true ⟨fun before p after result h => ?_, fun _ => ⟨⟨_, _, rfl⟩, fun _ => rfl⟩⟩
        trivial
      cases before <;> cases h
  | cons provider rest ih =>
      have tried := tryProvider_tried hfits request provider
      generalize htry : tryProvider gateway request provider = out at tried
      cases tried with
      | @kept rows result accepts kept logged =>
          rw [completeFrom_ok htry]
          refine iff_of_true ⟨fun before q after r heq hbefore haccepts => ?_, fun hall => ?_⟩
            (.inl ⟨⟨result, accepts⟩, kept⟩)
          · cases before with
            | nil =>
                obtain ⟨rfl, rfl⟩ := List.cons_eq_cons.mp heq
                exact ⟨congrArg Except.ok (accepts_unique accepts haccepts), logged⟩
            | cons p before =>
                obtain ⟨rfl, -⟩ := List.cons_eq_cons.mp heq
                exact absurd ⟨result, accepts⟩ (hbefore _ List.mem_cons_self)
          · exact absurd ⟨result, accepts⟩ (hall _ List.mem_cons_self)
      | @lost rows e result accepts notKept session ended =>
          refine iff_of_false (fun h => ?_) fun h => ?_
          · obtain ⟨hout, hrows⟩ := h.first [] provider rest result rfl nofun accepts
            obtain he | he := ended
            · obtain ⟨failed, errors', hlogged, heq⟩ := @completeFrom_caught _ gateway request
                provider rest errors hfits rows e htry he
              rw [heq] at hout hrows
              have hlater := hrows session
              rw [List.map_append, List.map_append, hlogged session] at hlater
              have hlength := congrArg List.length hlater
              simp only [List.length_append, List.length_map, List.length_cons, List.length_nil,
                List.nil_append] at hlength
              have hnil : (completeFrom gateway request rest errors').1.length = 0 := by omega
              exact rows_of_ok hfits session (Prod.ext rfl hout) (List.length_eq_zero_iff.mp hnil)
            · rw [completeFrom_escaped htry he] at hout
              cases hout
          · obtain ⟨-, hkept⟩ | ⟨hnone, -⟩ := h
            · exact notKept hkept
            · exact hnone ⟨result, accepts⟩
      | @refused e none refused he =>
          obtain ⟨failed, errors', hlogged, heq⟩ := @completeFrom_caught _ gateway request provider
            rest errors hfits [] e htry he
          rw [heq, List.nil_append, fallsThrough_cons none hlogged, ih]
          exact ⟨fun h => .inr ⟨none, refused, h⟩, fun h => (h.resolve_left fun h => none h.1).2.2⟩
      | @escaped rows e none notRefused he =>
          rw [completeFrom_escaped htry he]
          refine iff_of_false (fun h => ?_) fun h => ?_
          · obtain ⟨result, s, h, -⟩ | ⟨error, details, h⟩ := h.ends
            · cases h
            · exact he.2 _ _ (Except.error.inj h)
          · exact notRefused (h.resolve_left fun h => none h.1).2.1
      | @untyped rows result none notRefused noText logged =>
          rw [completeFrom_ok htry]
          refine iff_of_false (fun h => ?_) fun h => ?_
          · obtain ⟨result, s, h, hs⟩ | ⟨error, details, h⟩ := h.ends
            · cases h
              exact noText s hs
            · cases h
          · exact notRefused (h.resolve_left fun h => none h.1).2.1

/-- The gateway hands on the first acceptable answer, and nothing but an `AppError` leaves it,
exactly when every body up to there has a shape that it can read or refuse. -/
theorem complete_falls_through_iff (gateway : Gateway) (request : Completion Model)
    (providers : List Provider) (hfits : gateway.fits 0 = true) :
    FallsThrough gateway request providers (complete gateway request providers) ↔
      Passable gateway request providers := by
  unfold complete
  split
  · rename_i hempty
    obtain rfl := List.isEmpty_iff.mp hempty
    refine iff_of_true ⟨fun before p after result h => ?_, fun _ => ⟨⟨_, _, rfl⟩, fun _ => rfl⟩⟩
      trivial
    cases before <;> cases h
  · exact completeFrom_fallsThrough_iff hfits

/-- A body with its content and usage. -/
def chatBody (content usage : JsonValue) : JsonValue :=
  .dict [("choices", .list [.dict [("message", .dict [("content", content)])]]), ("usage", usage)]

/-- A gateway on a session, with one answer for the first provider and one for the others. -/
def chatGateway (first others : Post) : Gateway where
  hasSession := true
  posts provider _ := if provider.name = "openai" then first else others
  loads s := if s = "[]" then .value (.list []) else .invalid "JSONDecodeError"
  intOfText := String.toInt?
  fits n := -2 ^ 31 ≤ n ∧ n < 2 ^ 31
  latencyMs _ := 120

/-- The schema of a list. -/
def listRequest : Completion Unit where
  purpose := .extract
  schema := some fun
    | .list _ => some ()
    | _ => none

def twoProviders : List Provider :=
  configuredProviders { openaiApiKey := "a", nvidiaNimApiKey := "b" }

/-- The first provider answers with an error status, the second one with a list. -/
theorem complete_after_status_error :
    FallsThrough (chatGateway (.refused "HTTPStatusError")
        (.body (chatBody (.string "[]") (.dict [("prompt_tokens", .int 7)]))))
      listRequest twoProviders
      (complete (chatGateway (.refused "HTTPStatusError")
        (.body (chatBody (.string "[]") (.dict [("prompt_tokens", .int 7)])))) listRequest
          twoProviders) := by
  refine (complete_falls_through_iff _ _ _ (by decide)).mpr
    (.inr ⟨?_, ?_, .inl ⟨⟨_, _, "[]", some (), rfl, ⟨_, _, _, _, rfl, rfl, rfl, rfl⟩,
      .inr ⟨_, .list [], (), rfl, rfl, rfl, rfl⟩, rfl⟩, ?_⟩⟩)
  · rintro ⟨result, v, s, parsed, hv, -⟩
    cases hv
  · intro v hv
    cases hv
  · intro _ body hbody _
    cases hbody
    refine ⟨_, rfl, ?_⟩
    simp only [CountsFit, List.forall_mem_cons]
    exact ⟨⟨7, rfl, by decide⟩, ⟨0, rfl, by decide⟩, nofun⟩

/-- A refusal of the first model, whose content is null, ends the call in a `TypeError`. -/
theorem null_content_escapes :
    ¬∀ (Model : Type) (gateway : Gateway) (request : Completion Model) (providers : List Provider),
      gateway.fits 0 = true →
        FallsThrough gateway request providers (complete gateway request providers) := by
  intro h
  have ends := (h Unit (chatGateway (.body (chatBody .null .null))
    (.body (chatBody (.string "[]") .null))) listRequest twoProviders (by decide)).ends
  have escaped : (complete (chatGateway (.body (chatBody .null .null))
      (.body (chatBody (.string "[]") .null))) listRequest twoProviders).2 =
        .error .typeError := rfl
  rw [escaped] at ends
  obtain ⟨result, s, hresult, -⟩ | ⟨e, details, he⟩ := ends
  · cases hresult
  · cases he

end Loop

end DolphinVC
